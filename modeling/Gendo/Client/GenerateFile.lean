import Gendo.Client.CfgSections
import Gendo.Library.RowPasses

/-!
# Writing the update configuration anew

`RopCfgFile::GenerateFile` reads the lines of the configuration into an array, and makes a pass over
them for each item, which looks for the line to write the Md5 of the item to. A pass trims the
lines that it reads, and takes the name that `ParseLine` stored last for the name of a line; a line
that no pass reads keeps its line feed, and another one is written behind it.

`generateOk_iff` says which files come out as they are to be.
-/

namespace Gendo.Client.Cfg

open BufferedLines RowPasses Shlwapi

/-! ## The code -/

/-- `"%s = %s"` for an item. -/
def md5Line (item : RopCfgItem) : List UInt8 := ascii "Md5 = " ++ item.md5

/-- What `ParseLine` stores in `lpName`. -/
def LineType.name? : LineType → Option (List UInt8)
  | .param name _ => some name
  | .item name _ => some name
  | _ => none

/-- The inner loop of `GenerateFile`: the lines and `sName` then, or `none` where a write is outside
an array. -/
def scanLines (item : RopCfgItem) :
    Bool → List UInt8 → List (List UInt8) → Option (List (List UInt8) × List UInt8)
  | _, sName, [] => some ([], sName)
  | bFlag, sName, line :: buf => do
    let type ← (parseLine 256 line).toOption
    -- a line without a name leaves the one in `sName`
    let sName := type.name?.getD sName
    let bFlag := bFlag || strCmpNIA item.name sName sName.length
    if bFlag && strCmpNIA sName (ascii "Md5") sName.length then
      if (md5Line item).length < 512 then some (md5Line item :: buf, sName) else none
    else (scanLines item bFlag sName buf).map fun r => (trimLine line :: r.1, r.2)

/-- The outer loop of `GenerateFile`. -/
def scanItems : List RopCfgItem → List UInt8 → List (List UInt8) → Option (List (List UInt8))
  | [], _, buf => some buf
  | item :: items, sName, buf => do
    let r ← scanLines item false sName buf
    scanItems items r.2 r.1

/-- The text that is written for the lines. -/
def newText (buf : List (List UInt8)) : List UInt8 := buf.flatMap fun line => line ++ [LF]

/-- `GenerateFile`: the text of `CFG_New`, or `none` where a write is outside an array. -/
def generateFile (text : List UInt8) (items : List RopCfgItem) : Option (List UInt8) :=
  let buf := (fileLines text).map cString
  if 1000 < buf.length then none else (scanItems items [] buf).map newText

/-! ## What it is for -/

/-- A text with the items that were read of it. Their Md5 may have been calculated since. -/
structure ConfigItems (text : List UInt8) (items : List RopCfgItem) : Prop where
  parsed : ∃ p raw cfg cfg' r, cfg.vItem = [] ∧
    RopCfgFile.readAndInit p raw cfg text = .ok (cfg', r) ∧
      items.map (fun item => item.name) = cfg'.vItem.map fun item => item.name
  md5 : ∀ item ∈ items, item.md5.length ≤ MD5_DIGEST_LENGTH * 2 ∧ LF ∉ item.md5

/-- The lines are the same up to the blanks around them. -/
def SameLine (a b : List UInt8) : Prop := trimLine a = trimLine b

/-- The lines of the new file: the first one with an Md5 of each item has the Md5 of the item. -/
def newLines (text : List UInt8) (items : List RopCfgItem) : List (List UInt8) :=
  (fileLines text).mapIdx fun i line => (owner text items i).elim line md5Line

/-- The new file has the lines that it is to have, up to blanks. -/
def GenerateOk (text : List UInt8) (items : List RopCfgItem) : Prop :=
  ∃ new, generateFile text items = some new ∧
    (fileLines new).map trimLine = (newLines text items).map trimLine

/-! ## What an item finds -/

/-- The names that are in force in the lines: a line without a name has that of the line before. -/
def names : List UInt8 → List (List UInt8) → List (List UInt8)
  | _, [] => []
  | sName, line :: buf =>
    (lineType (trimLine line)).name?.getD sName ::
      names ((lineType (trimLine line)).name?.getD sName) buf

/-- What an item does to the lines. It finds the first one whose name begins `Md5`, from the first
one on whose name begins that of the item. -/
def pass (bFlag : Bool) (sName : List UInt8) (buf : List (List UInt8)) (item : RopCfgItem) :
    Pass (List UInt8) where
  found := findFlag (fun name => Abbreviates name item.name)
    (fun name => Abbreviates name (ascii "Md5")) bFlag (names sName buf)
  stamp := md5Line item

/-- The last item that finds a line. -/
def finder (text : List UInt8) (items : List RopCfgItem) (i : ℕ) : Option RopCfgItem :=
  (items.filter fun item => (pass false [] (fileLines text) item).found = some i).getLast?

/-- A line is found by the item whose Md5 it is to have, if there is one, and by no other; or it has
the right text nevertheless. -/
def RightLine (line : List UInt8) : Option RopCfgItem → Option RopCfgItem → Prop
  | none, none => True
  | some item, none => SameLine line (md5Line item)
  | none, some item => SameLine line (md5Line item)
  | some item, some item' => SameLine (md5Line item) (md5Line item')

/-- The arrays for a name and a value have room for the lines that an item reads. -/
def ReadsFit (buf : List (List UInt8)) (item : RopCfgItem) : Prop :=
  ∀ i line, buf[i]? = some line → (pass false [] buf item).Reads i → LineFits 256 (trimLine line)

/-- The lines that a file is to have for its items to find what they are to find. -/
structure GoodLines (text : List UInt8) (items : List RopCfgItem) : Prop where
  first : items ≠ [] → ∀ line ∈ (fileLines text).head?, (lineType (trimLine line)).name? ≠ none
  all : ∀ i line, (fileLines text)[i]? = some line → LF ∈ line →
    ∃ item ∈ items, (pass false [] (fileLines text) item).Reads i
  fits : ∀ item ∈ items, ReadsFit (fileLines text) item
  right : ∀ i line, (fileLines text)[i]? = some line →
    RightLine line (finder text items i) (owner text items i)

section

variable {item : RopCfgItem} {items : List RopCfgItem} {bFlag : Bool} {i : ℕ}
  {sName sName' line row text : List UInt8} {buf buf' rows rows' : List (List UInt8)}

/-! ## One pass -/

theorem strCmpNIA_eq_decide (a b : List UInt8) :
    strCmpNIA a b b.length = decide (Abbreviates b a) := by
  rw [Bool.eq_iff_iff, strCmpNIA_length_right rfl, decide_eq_true_iff]

theorem strCmpNIA_eq_decide_left (a b : List UInt8) :
    strCmpNIA a b a.length = decide (Abbreviates a b) := by
  rw [Bool.eq_iff_iff, strCmpNIA_length, decide_eq_true_iff]

/-- A pass that is not finished with the first line. -/
theorem reads_succ {f : Option ℕ} {s : List UInt8} :
    (Pass.mk (f.map fun k => k + 1) s).Reads (i + 1) ↔ (Pass.mk f s).Reads i := by
  rcases f with _ | f <;> simp [Pass.Reads]

/-- The first line of a pass. -/
theorem found_cons :
    (pass bFlag sName (line :: buf) item).found =
      if (bFlag || Abbreviates ((lineType (trimLine line)).name?.getD sName) item.name) &&
          Abbreviates ((lineType (trimLine line)).name?.getD sName) (ascii "Md5") then some 0
      else (pass (bFlag || Abbreviates ((lineType (trimLine line)).name?.getD sName) item.name)
        ((lineType (trimLine line)).name?.getD sName) buf item).found.map fun k => k + 1 :=
  findFlag_cons

/-- The inner loop makes one pass, if the arrays hold the lines that it reads. -/
theorem scanLines_eq_some_iff (hitem : (md5Line item).length < 512) :
    (∃ sName', scanLines item bFlag sName buf = some (buf', sName')) ↔
      (∀ i line, buf[i]? = some line → (pass bFlag sName buf item).Reads i →
        LineFits 256 (trimLine line)) ∧ buf' = (pass bFlag sName buf item).run trimLine buf := by
  induction buf generalizing bFlag sName buf' with
  | nil => simp [scanLines, Pass.run, eq_comm]
  | cons line buf ih =>
    have hfound := @found_cons item bFlag sName line buf
    by_cases hfits : LineFits 256 (trimLine line)
    · have hparse : parseLine 256 line = .ok (lineType (trimLine line)) :=
        parseLine_eq_ok.2 ⟨hfits, rfl⟩
      rw [scanLines, hparse]
      simp only [Except.toOption, Option.bind_eq_bind, Option.bind_some, strCmpNIA_eq_decide,
        strCmpNIA_eq_decide_left]
      generalize (lineType (trimLine line)).name?.getD sName = name at hfound ⊢
      generalize (bFlag || decide (Abbreviates name item.name)) = bFlag' at hfound ⊢
      split_ifs at hfound ⊢ with hstop
      · -- the line is the one that is replaced, and none behind it is read
        have hpass : pass bFlag sName (line :: buf) item = ⟨some 0, md5Line item⟩ :=
          congrArg (fun f => Pass.mk f (md5Line item)) hfound
        rw [hpass, Pass.run_cons_of_zero]
        constructor
        · rintro ⟨_, hret⟩
          cases hret
          refine ⟨fun i line' hline hreads => ?_, rfl⟩
          obtain rfl : i = 0 := Nat.le_zero.1 (hreads 0 rfl)
          cases hline
          exact hfits
        · rintro ⟨_, rfl⟩
          exact ⟨name, rfl⟩
      · -- the pass goes on with the name and the flag that the line leaves
        have hpass : pass bFlag sName (line :: buf) item =
            ⟨(pass bFlag' name buf item).found.map fun k => k + 1, md5Line item⟩ :=
          congrArg (fun f => Pass.mk f (md5Line item)) hfound
        rw [hpass, Pass.run_cons_of_succ]
        have hnext := @ih bFlag' name
        constructor
        · rintro ⟨_, hret⟩
          obtain ⟨⟨rest, sName'⟩, hrest, hret⟩ := Option.map_eq_some_iff.1 hret
          cases hret
          obtain ⟨hall, rfl⟩ := hnext.1 ⟨_, hrest⟩
          refine ⟨fun i line' hline hreads => ?_, rfl⟩
          cases i with
          | zero =>
            cases hline
            exact hfits
          | succ i => exact hall i line' hline (reads_succ.1 hreads)
        · rintro ⟨hall, rfl⟩
          obtain ⟨sName', hrest⟩ := hnext.2
            ⟨fun i line' hline hreads => hall (i + 1) line' hline (reads_succ.2 hreads), rfl⟩
          exact ⟨sName', by rw [hrest]; rfl⟩
    · have hnone : (parseLine 256 line).toOption = none := by
        rcases hparse : parseLine 256 line with _ | type
        · rfl
        · exact absurd (parseLine_eq_ok.1 hparse).1 hfits
      rw [scanLines, hnone]
      constructor
      · rintro ⟨_, hret⟩
        cases hret
      · rintro ⟨hall, _⟩
        exact absurd (hall 0 line rfl fun f _ => Nat.zero_le f) hfits

/-! ## Lines that were written -/

theorem trimLine_trimLine (line : List UInt8) : trimLine (trimLine line) = trimLine line :=
  strTrimA_strTrimA line blanks

/-- A line feed makes no difference. -/
theorem trimLine_append_lf (line : List UInt8) : trimLine (line ++ [LF]) = trimLine line :=
  strTrimA_append_right (List.forall_mem_singleton.2 (by decide)) line

/-- A line that was written, with or without the blanks around it. -/
def Stamped (line : List UInt8) : Prop :=
  ∃ item : RopCfgItem, item.md5.length ≤ MD5_DIGEST_LENGTH * 2 ∧ SameLine line (md5Line item)

/-- The name of a line that was written. -/
theorem lineType_md5Line (item : RopCfgItem) :
    ∃ value, lineType (trimLine (md5Line item)) = .param (ascii "Md5") value := by
  obtain ⟨rest, hrest⟩ : ∃ rest, trimLine (md5Line item) = ascii "Md5 " ++ 61 :: rest := by
    have htrimmed : Trimmed blanks (ascii "Md5 =") := by decide
    obtain ⟨rest, hrest⟩ := strTrimA_append_left htrimmed (by decide) (32 :: item.md5)
    exact ⟨rest, hrest⟩
  have hsign : strChrIA (ascii "Md5 " ++ 61 :: rest) 61 = some 4 :=
    strChrIA_append (by decide) rest
  have hends : strCmpNIA (ascii "Md5 " ++ 61 :: rest) (ascii "end") 3 = false := by
    rw [strCmpNIA]
    rfl
  rw [hrest, lineType, if_neg (by simp), hends, hsign]
  refine ⟨strTrimA rest blanks, ?_⟩
  simp only [Bool.false_eq_true, if_false]
  rfl

theorem length_md5Line (h : item.md5.length ≤ MD5_DIGEST_LENGTH * 2) :
    (md5Line item).length ≤ 38 := by
  rw [md5Line, List.length_append]
  exact Nat.add_le_add_left h 6

theorem Stamped.isMd5 (h : Stamped line) : IsMd5 (trimLine line) := by
  obtain ⟨item, -, hsame⟩ := h
  obtain ⟨value, htype⟩ := lineType_md5Line item
  rw [hsame, IsMd5, htype]
  exact Eq.refl _

theorem Stamped.fits (h : Stamped line) : LineFits 256 (trimLine line) := by
  obtain ⟨item, hlen, hsame⟩ := h
  rw [hsame]
  apply lineFits_of_length
  have htrim : (trimLine (md5Line item)).length ≤ (md5Line item).length :=
    length_strTrimA_le _ _
  have hline := length_md5Line hlen
  omega

theorem Stamped.of_sameLine (h : Stamped line) (hsame : SameLine row line) : Stamped row := by
  obtain ⟨item, hlen, hline⟩ := h
  exact ⟨item, hlen, hsame.trans hline⟩

/-- What the array holds for a line: the line itself, or a new one in the place of one that has the
name of the Md5. -/
def RowOf (line row : List UInt8) : Prop :=
  SameLine row line ∨ Stamped row ∧ IsMd5 (trimLine line) ∧ LineFits 256 (trimLine line)

theorem name_of_isMd5 (h : IsMd5 line) :
    ∃ name, (lineType line).name? = some name ∧ SameText name (ascii "Md5") := by
  rw [IsMd5] at h
  rcases htype : lineType line with _ | _ | ⟨name, value⟩ | ⟨name, value⟩ | _
  case param =>
    rw [htype] at h
    exact ⟨name, rfl, h⟩
  all_goals
    rw [htype] at h
    cases h

/-- The names are the same up to letter case. -/
theorem RowOf.name (h : RowOf line row) (hname : SameText sName sName') :
    SameText ((lineType (trimLine line)).name?.getD sName)
      ((lineType (trimLine row)).name?.getD sName') := by
  rcases h with hsame | ⟨hrow, hline, -⟩
  · rw [hsame]
    rcases (lineType (trimLine line)).name? with _ | name
    · exact hname
    · exact Eq.refl _
  · obtain ⟨name, hn, htext⟩ := name_of_isMd5 hline
    obtain ⟨name', hn', htext'⟩ := name_of_isMd5 hrow.isMd5
    rw [hn, hn']
    exact htext.trans htext'.symm

theorem names_congr (hrows : List.Forall₂ RowOf buf rows) (hname : SameText sName sName') :
    List.Forall₂ SameText (names sName buf) (names sName' rows) := by
  induction hrows generalizing sName sName' with
  | nil => exact .nil
  | cons hrow _ ih => exact .cons (hrow.name hname) (ih (hrow.name hname))

/-- The name of the first line hides the one that was there before. -/
theorem names_of_head
    (hfirst : ∀ line ∈ buf.head?, (lineType (trimLine line)).name? ≠ none) :
    names sName buf = names sName' buf := by
  rcases buf with _ | ⟨line, buf⟩
  · rfl
  · obtain ⟨name, hname⟩ := Option.ne_none_iff_exists'.1 (hfirst line rfl)
    rw [names, names, hname]
    rfl

/-- An item finds the same in the lines and in the array. -/
theorem pass_congr (hfirst : ∀ line ∈ buf.head?, (lineType (trimLine line)).name? ≠ none)
    (hrows : List.Forall₂ RowOf buf rows) :
    pass false sName rows item = pass false [] buf item := by
  have hnames : List.Forall₂ SameText (names [] buf) (names sName rows) := by
    rw [@names_of_head [] sName buf hfirst]
    exact names_congr hrows (Eq.refl _)
  refine congrArg (fun f => Pass.mk f (md5Line item)) (findFlag_congr ?_ false)
  refine hnames.flip.imp fun name name' (htext : SameText name' name) => ?_
  have habbr (key : List UInt8) : Abbreviates name key ↔ Abbreviates name' key := by
    rw [Abbreviates, Abbreviates, htext]
  exact ⟨decide_eq_decide.2 (habbr _), decide_eq_decide.2 (habbr _)⟩

/-! ## All passes -/

/-- What is kept by trimming, and holds of what is written, is kept by all passes. -/
theorem scanItems_keeps {P : List UInt8 → Prop} (htrim : ∀ row, P row → P (trimLine row))
    (hmd5 : ∀ item ∈ items, item.md5.length ≤ MD5_DIGEST_LENGTH * 2)
    (hstamp : ∀ item ∈ items, P (md5Line item)) (h : scanItems items sName rows = some rows') :
    rows'.length = rows.length ∧ ∀ (i : ℕ) row, rows[i]? = some row → P row →
      ∃ row', rows'[i]? = some row' ∧ P row' := by
  induction items generalizing sName rows with
  | nil =>
    cases h
    exact ⟨rfl, fun i row hrow hp => ⟨row, hrow, hp⟩⟩
  | cons item items ih =>
    obtain ⟨hitem, hitems⟩ := List.forall_mem_cons.1 hmd5
    obtain ⟨hp, hps⟩ := List.forall_mem_cons.1 hstamp
    obtain ⟨⟨rows'', sName'⟩, hscan, hrest⟩ := Option.bind_eq_some_iff.1 h
    obtain ⟨-, rfl⟩ := (scanLines_eq_some_iff (length_md5Line hitem |>.trans_lt (by decide))).1
      ⟨sName', hscan⟩
    obtain ⟨hlen, hall⟩ := ih hitems hps hrest
    refine ⟨hlen.trans Pass.length_run, fun i row hrow hkeep => ?_⟩
    refine hall i ((pass false sName rows item).touch trimLine i row) ?_ ?_
    · rw [Pass.getElem?_run, hrow]
      rfl
    · exact Pass.touch_keeps (htrim row) hp hkeep

/-- A line that was written stays one, whatever is written there later. -/
theorem stamped_scanItems
    (hmd5 : ∀ item ∈ items, item.md5.length ≤ MD5_DIGEST_LENGTH * 2)
    (h : scanItems items sName rows = some rows') (hrow : rows[i]? = some row)
    (hstamped : Stamped row) : ∃ row', rows'[i]? = some row' ∧ Stamped row' :=
  (scanItems_keeps (fun row hs => hs.of_sameLine (trimLine_trimLine row)) hmd5
    (fun item hmem => ⟨item, hmd5 item hmem, Eq.refl _⟩) h).2 i row hrow hstamped

/-- An item finds no line but one that has the name of the Md5. -/
def FindsMd5 (buf : List (List UInt8)) (item : RopCfgItem) : Prop :=
  ∀ f line, (pass false [] buf item).found = some f → buf[f]? = some line →
    IsMd5 (trimLine line)

/-- A pass keeps what the array holds, if it finds a line that has the name of the Md5. -/
theorem rowOf_run (hitem : item.md5.length ≤ MD5_DIGEST_LENGTH * 2)
    (hrows : List.Forall₂ RowOf buf rows) (hfound : FindsMd5 buf item)
    (hfits : ReadsFit buf item) :
    List.Forall₂ RowOf buf ((pass false [] buf item).run trimLine rows) := by
  refine Pass.forall₂_run hrows fun i line row hline hrow => ?_
  by_cases hhere : (pass false [] buf item).found = some i
  · rw [Pass.touch, if_pos hhere]
    exact .inr ⟨⟨item, hitem, Eq.refl _⟩, hfound i line hhere hline,
      hfits i line hline (Pass.reads_of_found hhere)⟩
  · rw [Pass.touch, if_neg hhere]
    split_ifs
    · refine hrow.imp (fun hsame => ?_) (And.imp_left fun hs => ?_)
      · exact (trimLine_trimLine row).trans hsame
      · exact hs.of_sameLine (trimLine_trimLine row)
    · exact hrow

/-- The arrays have room for what is read of the array if they have room for the lines. -/
theorem RowOf.fits (h : RowOf line row) (hline : LineFits 256 (trimLine line)) :
    LineFits 256 (trimLine row) := by
  rcases h with hsame | ⟨hstamped, -⟩
  · exact hsame ▸ hline
  · exact hstamped.fits

theorem RowOf.of_fits (h : RowOf line row) (hrow : LineFits 256 (trimLine row)) :
    LineFits 256 (trimLine line) := by
  rcases h with hsame | ⟨-, -, hline⟩
  · exact hsame ▸ hrow
  · exact hline

theorem getElem?_of_forall₂ (hrows : List.Forall₂ RowOf buf rows) :
    (∀ {i : ℕ} {row}, rows[i]? = some row → ∃ line, buf[i]? = some line ∧ RowOf line row) ∧
      ∀ {i : ℕ} {line}, buf[i]? = some line → ∃ row, rows[i]? = some row ∧ RowOf line row := by
  obtain ⟨hlen, hall⟩ := List.forall₂_iff_get.1 hrows
  constructor
  · intro i row hrow
    obtain ⟨hi, rfl⟩ := List.getElem?_eq_some_iff.1 hrow
    exact ⟨_, List.getElem?_eq_getElem (hlen ▸ hi), hall i (hlen ▸ hi) hi⟩
  · intro i line hline
    obtain ⟨hi, rfl⟩ := List.getElem?_eq_some_iff.1 hline
    exact ⟨_, List.getElem?_eq_getElem (hlen ▸ hi), hall i hi (hlen ▸ hi)⟩

/-- The passes go over the array as over the lines, if they find no other lines. The induction is on
the items, for every array that holds the lines. -/
theorem scanItems_eq
    (hfirst : items ≠ [] → ∀ line ∈ buf.head?, (lineType (trimLine line)).name? ≠ none)
    (hmd5 : ∀ item ∈ items, item.md5.length ≤ MD5_DIGEST_LENGTH * 2)
    (hfound : ∀ item ∈ items, FindsMd5 buf item) (hfits : ∀ item ∈ items, ReadsFit buf item)
    (hrows : List.Forall₂ RowOf buf rows) :
    scanItems items sName rows =
      some ((items.map (pass false [] buf)).foldl (fun rows p => p.run trimLine rows) rows) := by
  induction items generalizing sName rows with
  | nil => rfl
  | cons item items ih =>
    obtain ⟨hitem, hitems⟩ := List.forall_mem_cons.1 hmd5
    obtain ⟨hfound, hfounds⟩ := List.forall_mem_cons.1 hfound
    obtain ⟨hread, hreads⟩ := List.forall_mem_cons.1 hfits
    replace hfirst := hfirst (List.cons_ne_nil _ _)
    have hfit : ∀ (i : ℕ) row, rows[i]? = some row → (pass false sName rows item).Reads i →
        LineFits 256 (trimLine row) := by
      intro i row hrow hi
      obtain ⟨line, hline, hof⟩ := (getElem?_of_forall₂ hrows).1 hrow
      rw [pass_congr hfirst hrows] at hi
      exact hof.fits (hread i line hline hi)
    obtain ⟨sName', hscan⟩ :=
      (scanLines_eq_some_iff (length_md5Line hitem |>.trans_lt (by decide))).2 ⟨hfit, rfl⟩
    rw [pass_congr hfirst hrows] at hscan
    rw [scanItems, hscan]
    exact ih (fun _ => hfirst) hitems hfounds hreads (rowOf_run hitem hrows hfound hread)

/-- A line that was written is in the place of one that has the name of the Md5. -/
def OnlyMd5 (buf rows : List (List UInt8)) : Prop :=
  ∀ (i : ℕ) line row, buf[i]? = some line → rows[i]? = some row → Stamped row →
    IsMd5 (trimLine line)

/-- If only lines that have the name of the Md5 are new in the end, then the items find no other
lines, and the arrays have room for those that are read. -/
theorem of_scanItems
    (hfirst : items ≠ [] → ∀ line ∈ buf.head?, (lineType (trimLine line)).name? ≠ none)
    (hmd5 : ∀ item ∈ items, item.md5.length ≤ MD5_DIGEST_LENGTH * 2)
    (hrows : List.Forall₂ RowOf buf rows) (h : scanItems items sName rows = some rows')
    (hgood : OnlyMd5 buf rows') :
    ∀ item ∈ items, FindsMd5 buf item ∧ ReadsFit buf item := by
  induction items generalizing sName rows with
  | nil => exact List.forall_mem_nil _
  | cons item items ih =>
    obtain ⟨hitem, hitems⟩ := List.forall_mem_cons.1 hmd5
    obtain ⟨⟨rows'', sName'⟩, hscan, hrest⟩ := Option.bind_eq_some_iff.1 h
    obtain ⟨hall, rfl⟩ := (scanLines_eq_some_iff (length_md5Line hitem |>.trans_lt (by decide))).1
      ⟨sName', hscan⟩
    replace hfirst := hfirst (List.cons_ne_nil _ _)
    rw [pass_congr hfirst hrows] at hall hrest
    have hread : ReadsFit buf item := by
      intro i line hline hi
      obtain ⟨row, hrow, hof⟩ := (getElem?_of_forall₂ hrows).2 hline
      exact hof.of_fits (hall i row hrow hi)
    have hfound : FindsMd5 buf item := by
      intro f line hf hline
      obtain ⟨row, hrow, -⟩ := (getElem?_of_forall₂ hrows).2 hline
      have hnew : ((pass false [] buf item).run trimLine rows)[f]? = some (md5Line item) := by
        rw [Pass.getElem?_run, hrow, Option.map_some, Pass.touch, if_pos hf]
        rfl
      obtain ⟨row', hrow', hstamped⟩ :=
        stamped_scanItems hitems hrest hnew ⟨item, hitem, Eq.refl _⟩
      exact hgood f line row' hline hrow' hstamped
    exact List.forall_mem_cons.2 ⟨⟨hfound, hread⟩,
      ih (fun _ => hfirst) hitems (rowOf_run hitem hrows hfound hread) hrest⟩

/-- If only lines that have the name of the Md5 are new in the end, then the first line has a name:
an empty one in `sName` begins every name. -/
theorem first_of_scanItems (hne : items ≠ [])
    (hmd5 : ∀ item ∈ items, item.md5.length ≤ MD5_DIGEST_LENGTH * 2)
    (h : scanItems items [] buf = some rows')
    (hgood : OnlyMd5 buf rows') :
    ∀ line ∈ buf.head?, (lineType (trimLine line)).name? ≠ none := by
  rcases items with _ | ⟨item, items⟩
  · exact absurd rfl hne
  rcases buf with _ | ⟨line, buf⟩
  · intro line hline
    cases hline
  rintro _ ⟨⟩ hname
  obtain ⟨hitem, hitems⟩ := List.forall_mem_cons.1 hmd5
  obtain ⟨⟨rows, sName'⟩, hscan, hrest⟩ := Option.bind_eq_some_iff.1 h
  obtain ⟨-, rfl⟩ := (scanLines_eq_some_iff (length_md5Line hitem |>.trans_lt (by decide))).1
    ⟨sName', hscan⟩
  have hfound : (pass false [] (line :: buf) item).found = some 0 := by
    rw [found_cons, hname, if_pos]
    simp [Abbreviates]
  have hnew : ((pass false [] (line :: buf) item).run trimLine (line :: buf))[0]? =
      some (md5Line item) := by
    rw [Pass.getElem?_run, List.getElem?_cons_zero, Option.map_some, Pass.touch, if_pos hfound]
    rfl
  obtain ⟨row', hrow', hstamped⟩ := stamped_scanItems hitems hrest hnew ⟨item, hitem, Eq.refl _⟩
  obtain ⟨name, hname', -⟩ := name_of_isMd5 (hgood 0 line row' rfl hrow' hstamped)
  rw [hname] at hname'
  cases hname'

/-! ## The new file -/

/-- A line without its line feed. -/
def PlainRow (row : List UInt8) : Prop := LF ∉ row ∧ row.length < 511

/-- A line that is in the array. -/
def StoredRow (row : List UInt8) : Prop := ∃ m, PlainRow m ∧ (row = m ∨ row = m ++ [LF])

theorem PlainRow.stored (h : PlainRow row) : StoredRow row := ⟨row, h, .inl rfl⟩

/-- A line that is trimmed has no line feed. -/
theorem StoredRow.trimLine (h : StoredRow row) : PlainRow (trimLine row) := by
  obtain ⟨m, ⟨hlf, hlen⟩, hrow⟩ := h
  have htrim : Cfg.trimLine row = Cfg.trimLine m := by
    rcases hrow with rfl | rfl
    · rfl
    · exact trimLine_append_lf m
  have hsub : Cfg.trimLine m <:+: m := strTrimA_isInfix m blanks
  rw [htrim]
  exact ⟨fun hmem => hlf (hsub.subset hmem), hsub.length_le.trans_lt hlen⟩

theorem plainRow_md5Line (hlen : item.md5.length ≤ MD5_DIGEST_LENGTH * 2) (hlf : LF ∉ item.md5) :
    PlainRow (md5Line item) := by
  have hfront : LF ∉ ascii "Md5 = " := by decide
  refine ⟨?_, (length_md5Line hlen).trans_lt (by decide)⟩
  rw [md5Line, List.mem_append, not_or]
  exact ⟨hfront, hlf⟩

theorem storedRow_of_mem (hcols : ShortLines 511 text) (h : line ∈ fileLines text) :
    StoredRow line := by
  have hsub : line <:+: text := by
    have hflat := flatten_lines 511 511 text
    exact hflat ▸ List.infix_of_mem_flatten h
  by_cases hlf : LF ∈ line
  · obtain ⟨m, b, rfl⟩ : ∃ m b, line = m ++ [b] :=
      ⟨_, _, (List.dropLast_append_getLast (ne_nil_of_mem_lines h)).symm⟩
    have hm := lf_notMem_dropLast h
    rw [List.dropLast_concat] at hm
    obtain rfl : LF = b := by simpa [hm] using hlf
    exact ⟨m, ⟨hm, hcols m ((List.prefix_append m [LF]).isInfix.trans hsub) hm⟩, .inr rfl⟩
  · exact PlainRow.stored ⟨hlf, hcols line hsub hlf⟩

/-- A line that is written without a line feed is one line of the new file. -/
theorem fileLines_newText_cons (h : PlainRow row) :
    fileLines (newText (row :: rows)) = (row ++ [LF]) :: fileLines (newText rows) := by
  rw [newText, List.flatMap_cons, ← newText, List.append_assoc]
  exact lines_append_lf h.1 h.2 (newText rows)

/-- A line feed that is left makes another line. -/
theorem length_fileLines_newText (h : ∀ row ∈ rows, StoredRow row) :
    (fileLines (newText rows)).length = rows.length + rows.countP fun row => LF ∈ row := by
  induction rows with
  | nil => rfl
  | cons row rows ih =>
    obtain ⟨⟨m, hm, hrow⟩, hrows⟩ := List.forall_mem_cons.1 h
    rcases hrow with rfl | rfl
    · rw [fileLines_newText_cons hm, List.length_cons, ih hrows, List.length_cons,
        List.countP_cons_of_neg (by simpa using hm.1)]
      omega
    · have hsplit : newText ((m ++ [LF]) :: rows) = newText (m :: [] :: rows) := by
        simp [newText]
      rw [hsplit, fileLines_newText_cons hm, fileLines_newText_cons ⟨by simp, by decide⟩,
        List.length_cons, List.length_cons, ih hrows, List.length_cons,
        List.countP_cons_of_pos (by simp)]
      omega

theorem fileLines_newText (h : ∀ row ∈ rows, PlainRow row) :
    fileLines (newText rows) = rows.map fun row => row ++ [LF] := by
  induction rows with
  | nil => rfl
  | cons row rows ih =>
    obtain ⟨hrow, hrows⟩ := List.forall_mem_cons.1 h
    rw [fileLines_newText_cons hrow, ih hrows, List.map_cons]

/-- The new file has as many lines as the array exactly if no line feed is left. -/
theorem sameLines_newText_iff (h : ∀ row ∈ rows, StoredRow row) {es : List (List UInt8)}
    (hlen : es.length = rows.length) :
    (fileLines (newText rows)).map trimLine = es.map trimLine ↔
      (∀ row ∈ rows, LF ∉ row) ∧ rows.map trimLine = es.map trimLine := by
  have hlines (hplain : ∀ row ∈ rows, LF ∉ row) :
      (fileLines (newText rows)).map trimLine = rows.map trimLine := by
    have hrows : ∀ row ∈ rows, PlainRow row := by
      intro row hrow
      obtain ⟨m, hm, rfl | rfl⟩ := h row hrow
      · exact hm
      · exact absurd (by simp) (hplain _ hrow)
    rw [fileLines_newText hrows, List.map_map]
    exact List.map_congr_left fun row _ => trimLine_append_lf row
  constructor
  · intro hsame
    have hcount := congrArg List.length hsame
    rw [List.length_map, List.length_map, length_fileLines_newText h, hlen,
      Nat.add_eq_left, List.countP_eq_zero] at hcount
    have hplain : ∀ row ∈ rows, LF ∉ row := fun row hrow => by simpa using hcount row hrow
    exact ⟨hplain, (hlines hplain).symm.trans hsame⟩
  · rintro ⟨hplain, hsame⟩
    exact (hlines hplain).trans hsame

/-! ## Files that come out as they are to be -/

/-- The text of a line in the end, up to blanks. -/
theorem trimLine_foldl_touch (text : List UInt8) (items : List RopCfgItem) (i : ℕ)
    (line : List UInt8) :
    trimLine ((items.map (pass false [] (fileLines text))).foldl
        (fun row p => p.touch trimLine i row) line) =
      trimLine ((finder text items i).elim line md5Line) := by
  have hwriter : Pass.writer (items.map (pass false [] (fileLines text))) i =
      (finder text items i).map (pass false [] (fileLines text)) := by
    rw [Pass.writer, List.filter_map, List.getLast?_map]
    rfl
  rw [Pass.view_foldl_touch trimLine_trimLine, hwriter]
  rcases finder text items i with _ | item
  · rfl
  · rfl

theorem rightLine_iff {found owned : Option RopCfgItem} :
    RightLine line found owned ↔
      trimLine (found.elim line md5Line) = trimLine (owned.elim line md5Line) := by
  rcases found with _ | item
  · rcases owned with _ | item'
    · exact iff_of_true trivial rfl
    · exact Iff.rfl
  · rcases owned with _ | item'
    · exact eq_comm
    · exact Iff.rfl

/-- The lines in the end, as the passes leave them. -/
def lastLines (text : List UInt8) (items : List RopCfgItem) : List (List UInt8) :=
  (items.map (pass false [] (fileLines text))).foldl (fun rows p => p.run trimLine rows)
    (fileLines text)

/-- No line feed is left exactly if a pass reads each line that has one. -/
theorem lf_notMem_lastLines_iff (hcols : ShortLines 511 text)
    (hmd5 : ∀ item ∈ items, PlainRow (md5Line item)) :
    (∀ row ∈ lastLines text items, LF ∉ row) ↔
      ∀ i line, (fileLines text)[i]? = some line → LF ∈ line →
        ∃ item ∈ items, (pass false [] (fileLines text) item).Reads i := by
  have hrow (i : ℕ) (line : List UInt8) (hline : (fileLines text)[i]? = some line) :
      LF ∉ (items.map (pass false [] (fileLines text))).foldl
          (fun row p => p.touch trimLine i row) line ↔
        (LF ∈ line → ∃ item ∈ items, (pass false [] (fileLines text) item).Reads i) := by
    by_cases hreads : ∃ item ∈ items, (pass false [] (fileLines text) item).Reads i
    · obtain ⟨item, hitem, hi⟩ := hreads
      have hplain : PlainRow ((items.map (pass false [] (fileLines text))).foldl
          (fun row p => p.touch trimLine i row) line) :=
        Pass.foldl_touch_of_reads (fun row hs => StoredRow.trimLine hs)
          (fun row hp => PlainRow.stored hp)
          (List.forall_mem_map.2 hmd5) ⟨_, List.mem_map_of_mem hitem, hi⟩
          (storedRow_of_mem hcols (List.mem_of_getElem? hline))
      exact iff_of_true hplain.1 fun _ => ⟨item, hitem, hi⟩
    · rw [Pass.foldl_touch_of_not_reads (List.forall_mem_map.2 fun item hitem hi =>
        hreads ⟨item, hitem, hi⟩)]
      exact ⟨fun hlf hmem => absurd hmem hlf, fun h hmem => hreads (h hmem)⟩
  rw [lastLines, Pass.foldl_run]
  constructor
  · intro h i line hline
    obtain ⟨hi, rfl⟩ := List.getElem?_eq_some_iff.1 hline
    exact (hrow i _ hline).1 (h _ (List.mem_mapIdx.2 ⟨i, hi, rfl⟩))
  · intro h row hmem
    obtain ⟨i, hi, rfl⟩ := List.mem_mapIdx.1 hmem
    exact (hrow i _ (List.getElem?_eq_getElem hi)).2 (h i _ (List.getElem?_eq_getElem hi))

/-- The lines are the right ones up to blanks exactly if each line is right. -/
theorem lastLines_eq_iff :
    (lastLines text items).map trimLine = (newLines text items).map trimLine ↔
      ∀ i line, (fileLines text)[i]? = some line →
        RightLine line (finder text items i) (owner text items i) := by
  rw [lastLines, Pass.foldl_run, newLines, List.ext_getElem?_iff]
  refine forall_congr' fun i => ?_
  rw [List.getElem?_map, List.getElem?_map, List.getElem?_mapIdx, List.getElem?_mapIdx]
  rcases (fileLines text)[i]? with _ | line
  · simp
  · simp only [Option.map_some, Option.some.injEq, forall_eq', trimLine_foldl_touch,
      rightLine_iff]

/-- The array keeps its lines, each with its line feed at the end, if it has one. -/
theorem storedRow_of_scanItems (hcols : ShortLines 511 text)
    (hlen : ∀ item ∈ items, item.md5.length ≤ MD5_DIGEST_LENGTH * 2)
    (hmd5 : ∀ item ∈ items, PlainRow (md5Line item))
    (h : scanItems items [] (fileLines text) = some rows) :
    rows.length = (fileLines text).length ∧ ∀ row ∈ rows, StoredRow row := by
  obtain ⟨hlength, hkeep⟩ := scanItems_keeps (P := StoredRow)
    (fun row hs => PlainRow.stored (StoredRow.trimLine hs)) hlen
    (fun item hitem => PlainRow.stored (hmd5 item hitem)) h
  refine ⟨hlength, fun row hrow => ?_⟩
  obtain ⟨i, hi, rfl⟩ := List.mem_iff_getElem.1 hrow
  have hline := List.getElem?_eq_getElem (hlength ▸ hi)
  obtain ⟨row', hrow', hstored⟩ := hkeep i _ hline
    (storedRow_of_mem hcols (List.mem_of_getElem? hline))
  rw [List.getElem?_eq_getElem hi] at hrow'
  cases hrow'
  exact hstored

/-- A line that gets the text of an Md5 and is to have it has the name of the Md5. -/
theorem isMd5_of_sameLine (hfile : ConfigFile text) (hline : (fileLines text)[i]? = some line)
    (hrow : Stamped row) (h : SameLine row ((owner text items i).elim line md5Line)) :
    IsMd5 (trimLine line) := by
  rcases howner : owner text items i with _ | item
  · rw [howner] at h
    exact (hrow.of_sameLine h.symm).isMd5
  · obtain ⟨-, line', hline', hmd5⟩ := isMd5_of_owner hfile.string hfile.cols howner
    rw [hline] at hline'
    cases hline'
    exact hmd5

/-- The array holds the lines as they were read. -/
theorem map_cString_fileLines (hstring : 0 ∉ text) :
    (fileLines text).map cString = fileLines text := by
  refine (List.map_congr_left fun line hline => ?_).trans (List.map_id _)
  have hflat := flatten_lines 511 511 text
  refine cString_of_notMem fun hmem => hstring ?_
  rw [← hflat]
  exact List.mem_flatten.2 ⟨line, hline, hmem⟩

/-- The array holds the lines. -/
theorem forall₂_rowOf (buf : List (List UInt8)) : List.Forall₂ RowOf buf buf :=
  List.forall₂_same.2 fun _ _ => .inl (Eq.refl _)

/-- Where the lines are right, the passes go over them as they are to. -/
theorem scanItems_of_goodLines (hfile : ConfigFile text)
    (hmd5 : ∀ item ∈ items, item.md5.length ≤ MD5_DIGEST_LENGTH * 2) (h : GoodLines text items) :
    scanItems items [] (fileLines text) = some (lastLines text items) := by
  refine scanItems_eq h.first hmd5 (fun item hitem f line hf hline => ?_) h.fits
    (forall₂_rowOf _)
  -- the last item that finds the line writes the right text there
  obtain ⟨last, hlast⟩ : ∃ last, finder text items f = some last := by
    have hmem : item ∈ items.filter fun item =>
        (pass false [] (fileLines text) item).found = some f :=
      List.mem_filter.2 ⟨hitem, by simpa using hf⟩
    exact ⟨_, List.getLast?_eq_some_getLast (List.ne_nil_of_mem hmem)⟩
  have hlastmem : last ∈ items := (List.mem_filter.1 (List.mem_of_getLast? hlast)).1
  have hright := rightLine_iff.1 (h.right f line hline)
  rw [hlast] at hright
  exact isMd5_of_sameLine hfile hline ⟨last, hmd5 last hlastmem, Eq.refl _⟩ hright

/-- Where the array holds the right lines in the end, the lines are right. -/
theorem goodLines_of_scanItems (hfile : ConfigFile text)
    (hmd5 : ∀ item ∈ items, item.md5.length ≤ MD5_DIGEST_LENGTH * 2)
    (hplain : ∀ item ∈ items, PlainRow (md5Line item))
    (h : scanItems items [] (fileLines text) = some rows) (hlf : ∀ row ∈ rows, LF ∉ row)
    (hsame : rows.map trimLine = (newLines text items).map trimLine) : GoodLines text items := by
  have honly : OnlyMd5 (fileLines text) rows := by
    intro i line row hline hrow hstamped
    have hget := congrArg (fun ls => ls[i]?) hsame
    simp only [newLines, List.getElem?_map, List.getElem?_mapIdx, hline, hrow, Option.map_some,
      Option.some.injEq] at hget
    exact isMd5_of_sameLine hfile hline hstamped hget
  have hfirst := fun hne => first_of_scanItems hne hmd5 h honly
  have hall := of_scanItems hfirst hmd5 (forall₂_rowOf _) h honly
  have hlast : scanItems items [] (fileLines text) = some (lastLines text items) :=
    scanItems_eq hfirst hmd5 (fun item hitem => (hall item hitem).1)
      (fun item hitem => (hall item hitem).2) (forall₂_rowOf _)
  obtain rfl : rows = lastLines text items := Option.some.inj (h.symm.trans hlast)
  exact ⟨hfirst, (lf_notMem_lastLines_iff hfile.cols hplain).1 hlf,
    fun item hitem => (hall item hitem).2, lastLines_eq_iff.1 hsame⟩

theorem generateFile_eq (hfile : ConfigFile text) :
    generateFile text items = (scanItems items [] (fileLines text)).map newText := by
  rw [generateFile, map_cString_fileLines hfile.string]
  exact if_neg (Nat.not_lt.2 hfile.rows)

theorem ConfigItems.length_md5 (h : ConfigItems text items) :
    ∀ item ∈ items, item.md5.length ≤ MD5_DIGEST_LENGTH * 2 :=
  fun item hitem => (h.md5 item hitem).1

theorem ConfigItems.plainRow (h : ConfigItems text items) :
    ∀ item ∈ items, PlainRow (md5Line item) :=
  fun item hitem => plainRow_md5Line (h.md5 item hitem).1 (h.md5 item hitem).2

theorem length_newLines (text : List UInt8) (items : List RopCfgItem) :
    (newLines text items).length = (fileLines text).length := List.length_mapIdx

theorem goodLines_of_generateOk (hfile : ConfigFile text) (hitems : ConfigItems text items)
    (h : GenerateOk text items) : GoodLines text items := by
  obtain ⟨_, hnew, hsame⟩ := h
  rw [generateFile_eq hfile] at hnew
  obtain ⟨rows, hscan, rfl⟩ := Option.map_eq_some_iff.1 hnew
  obtain ⟨hrows, hstored⟩ :=
    storedRow_of_scanItems hfile.cols hitems.length_md5 hitems.plainRow hscan
  obtain ⟨hlf, hsame⟩ := (sameLines_newText_iff hstored
    ((length_newLines text items).trans hrows.symm)).1 hsame
  exact goodLines_of_scanItems hfile hitems.length_md5 hitems.plainRow hscan hlf hsame

theorem generateOk_of_goodLines (hfile : ConfigFile text) (hitems : ConfigItems text items)
    (h : GoodLines text items) : GenerateOk text items := by
  have hscan := scanItems_of_goodLines hfile hitems.length_md5 h
  obtain ⟨hrows, hstored⟩ :=
    storedRow_of_scanItems hfile.cols hitems.length_md5 hitems.plainRow hscan
  refine ⟨newText (lastLines text items), by rw [generateFile_eq hfile, hscan]; rfl, ?_⟩
  exact (sameLines_newText_iff hstored ((length_newLines text items).trans hrows.symm)).2
    ⟨(lf_notMem_lastLines_iff hfile.cols hitems.plainRow).2 h.all, lastLines_eq_iff.2 h.right⟩

end

/-- A file comes out as it is to be exactly if its items find the lines that they are to find, and
each line that has a line feed is read by one of them. -/
theorem generateOk_iff {text : List UInt8} {items : List RopCfgItem} (hfile : ConfigFile text)
    (hitems : ConfigItems text items) : GenerateOk text items ↔ GoodLines text items :=
  ⟨goodLines_of_generateOk hfile hitems, generateOk_of_goodLines hfile hitems⟩

/-- The items of a file, by their names. -/
theorem configItems_of_names {text : List UInt8} {items : List RopCfgItem} (p : Process)
    (hnames : (zeroFile.readAndInit p (fun _ => zeroItem) text).toOption.map
      (fun r => r.1.vItem.map fun item => item.name) = some (items.map fun item => item.name))
    (hmd5 : ∀ item ∈ items, item.md5.length ≤ MD5_DIGEST_LENGTH * 2 ∧ LF ∉ item.md5) :
    ConfigItems text items := by
  refine ⟨?_, hmd5⟩
  rcases hread : zeroFile.readAndInit p (fun _ => zeroItem) text with buf | ⟨cfg, r⟩
  · rw [hread] at hnames
    cases hnames
  · rw [hread] at hnames
    exact ⟨p, fun _ => zeroItem, zeroFile, cfg, r, rfl, hread, (Option.some.inj hnames).symm⟩

/-- An item with its Md5. -/
def namedItem (name md5 : String) : RopCfgItem :=
  { zeroItem with name := ascii name, md5 := ascii md5 }

/-- Two items. The second one has no Md5, and reads all lines. -/
def twoItemsText : List UInt8 := ascii "A : CfgItem\nMd5 = 1\nend\nB : CfgItem\nend"

theorem generateOk_twoItems : GenerateOk twoItemsText [namedItem "A" "2", namedItem "B" ""] := by
  have hshort : ShortLines 511 twoItemsText := shortLines_of_length (by decide +kernel)
  have hfile : ConfigFile twoItemsText := ⟨by decide +kernel, by decide +kernel, hshort⟩
  have hitems : ConfigItems twoItemsText [namedItem "A" "2", namedItem "B" ""] :=
    configItems_of_names gendoProcess (by decide +kernel) (by decide +kernel)
  have hnone : (pass false [] (fileLines twoItemsText) (namedItem "B" "")).found = none := by
    decide +kernel
  have hlines : ∀ line ∈ fileLines twoItemsText, (trimLine line).length + 2 ≤ 256 := by
    decide +kernel
  have hright : ∀ x ∈ (fileLines twoItemsText).zipIdx,
      trimLine ((finder twoItemsText [namedItem "A" "2", namedItem "B" ""] x.2).elim x.1 md5Line) =
        trimLine ((owner twoItemsText [namedItem "A" "2", namedItem "B" ""] x.2).elim x.1
          md5Line) := by
    decide +kernel
  refine (generateOk_iff hfile hitems).2 ⟨fun _ => by decide +kernel, fun i line _ _ => ?_,
    fun item _ i line hline _ => ?_, fun i line hline => ?_⟩
  · refine ⟨namedItem "B" "", by simp, fun f hf => ?_⟩
    rw [hnone] at hf
    cases hf
  · exact lineFits_of_length (hlines line (List.mem_of_getElem? hline))
  · exact rightLine_iff.2 (hright (line, i) (List.mem_zipIdx_iff_getElem?.2 hline))

/-- The only item of a file has its Md5. -/
def oneItemText : List UInt8 := ascii "A : CfgItem\nMd5 = 1\nend\n"

/-- The line behind the Md5 is not read. -/
theorem not_generateOk_oneItem :
    ¬ ∀ (text : List UInt8) (items : List RopCfgItem), ConfigFile text → ConfigItems text items →
      GenerateOk text items := by
  intro h
  have hshort : ShortLines 511 oneItemText := shortLines_of_length (by decide +kernel)
  have hfile : ConfigFile oneItemText := ⟨by decide +kernel, by decide +kernel, hshort⟩
  have hitems : ConfigItems oneItemText [namedItem "A" "2"] :=
    configItems_of_names gendoProcess (by decide +kernel) (by decide +kernel)
  have hgood := goodLines_of_generateOk hfile hitems
    (h oneItemText [namedItem "A" "2"] hfile hitems)
  obtain ⟨item, hitem, hreads⟩ := hgood.all 2 (ascii "end\n") (by decide +kernel) (by decide)
  rw [List.mem_singleton.1 hitem] at hreads
  exact absurd (hreads 1 (by decide +kernel)) (by decide)

end Gendo.Client.Cfg
