import Mathlib.Data.Int.Basic
import Mathlib.Data.List.Basic
import Mathlib.Logic.Function.Basic
import Mathlib.Tactic.Common

/-!
# Updating the client

`Update` downloads the items of a new configuration that differ from those of the old one, each to
a temporary file beside the installed one, and then moves the temporary files over the installed
ones and the new configuration over the old. A download that fails should stop it before that.

`HttpDownloadFile` says by its return value how a download ended, and `RopCfgItem::Update` takes
every value but 0 for a success, the negative error codes included. `allOrNothing_iff` says which
updates are all or nothing.
-/

namespace Gendo.Client

/-- A path or a name. -/
abbrev Path : Type := List Char

/-- The bytes of a file. -/
abbrev File : Type := List UInt8

/-- `CFG_NAME`. -/
def CFG_NAME : Path := ['v', 'e', 'r', 's', 'i', 'o', 'n']

/-- `TEMP_CFG_NAME`. -/
def TEMP_CFG_NAME : Path := ['_', 'v', 'e', 'r', 's', 'i', 'o', 'n', '_', 'n', 'e', 'w', '_']

/-- `MD5_DIGEST_LENGTH`. -/
def MD5_DIGEST_LENGTH : ℕ := 16

/-- What Windows decides: which file a path names, and whether two strings are the same in their
first `n` characters. -/
structure Windows (φ : Type*) where
  fileOf : Path → φ
  strCmpNIA : Path → Path → ℕ → Bool

/-- The files on the disk. -/
abbrev Disk (φ : Type*) : Type _ := φ → Option File

/-- `RopCfgItem`, as far as an update looks at it. -/
structure RopCfgItem where
  name : Path
  md5 : List UInt8
  localPath : Path
  nameOnLocal : Path
  extOnLocal : Path
  bNeedUpdate : Bool
  deriving DecidableEq, Repr

/-- How `HttpDownloadFile` fares. -/
inductive HttpAnswer
  /-- `urlmon.dll` cannot be loaded. -/
  | noUrlmon
  /-- `URLDownloadToFile` fails, and leaves this at the destination. -/
  | failed (left : Option File)
  /-- The file is downloaded, and can be opened then or not. -/
  | downloaded (file : File) (opens : Bool)
  deriving DecidableEq, Repr

/-- The return value of `HttpDownloadFile`. Where the file can be opened that is the position
after `fseek(fp, SEEK_END, 0)`: its two numbers have changed places, so that it is always 2. -/
def HttpAnswer.ret : HttpAnswer → ℤ
  | noUrlmon => -3
  | failed _ => -2
  | downloaded _ opens => if opens then 2 else 0

section

variable {φ : Type*} [DecidableEq φ] (win : Windows φ)

/-- `HttpDownloadFile` to a file on the disk. -/
def httpDownloadFile (answer : HttpAnswer) (dst : Path) (disk : Disk φ) : ℤ × Disk φ :=
  (answer.ret,
    match answer with
    | .noUrlmon => disk
    | .failed left => Function.update disk (win.fileOf dst) left
    | .downloaded file _ => Function.update disk (win.fileOf dst) (some file))

/-- `MoveFileExA`, which does nothing where there is no such file. -/
def moveFile (src dst : Path) (disk : Disk φ) : Disk φ :=
  match disk (win.fileOf src) with
  | none => disk
  | some file =>
    Function.update (Function.update disk (win.fileOf src) none) (win.fileOf dst) (some file)

namespace RopCfgItem

/-- The installed file of an item. -/
def destFile (item : RopCfgItem) : Path :=
  if item.extOnLocal = [] then item.localPath ++ '\\' :: item.nameOnLocal
  else item.localPath ++ '\\' :: (item.nameOnLocal ++ '.' :: item.extOnLocal)

/-- The file that it is downloaded to, with the suffix `TmpSuffix`. -/
def tmpFile (item : RopCfgItem) : Path := item.destFile ++ ['.', 't', 'm', 'p']

/-- `DownloadFile`. -/
def downloadFile (item : RopCfgItem) (answer : HttpAnswer) (disk : Disk φ) : ℤ × Disk φ :=
  let disk := Function.update disk (win.fileOf item.tmpFile) none
  httpDownloadFile win answer item.tmpFile disk

/-- `Update`, which takes any value but 0 for a success. -/
def update (item : RopCfgItem) (answer : HttpAnswer) (disk : Disk φ) : ℤ × Disk φ :=
  let done := item.downloadFile win answer disk
  if done.1 = 0 then (-1, done.2) else (0, done.2)

/-- `CopyFile`. -/
def copyFile (disk : Disk φ) (item : RopCfgItem) : Disk φ :=
  let disk := Function.update disk (win.fileOf item.destFile) none
  moveFile win item.tmpFile item.destFile disk

end RopCfgItem

omit [DecidableEq φ] in
/-- `FindItem`. -/
def findItem (items : List RopCfgItem) (item : RopCfgItem) : Bool :=
  items.any fun tmpItem =>
    win.strCmpNIA item.name tmpItem.name item.name.length &&
      item.name.length = tmpItem.name.length

omit [DecidableEq φ] in
/-- `IsItemSync`: whether the item differs from those of the same name. -/
def isItemSync (items : List RopCfgItem) (item : RopCfgItem) : Bool :=
  !items.any fun tmpItem =>
    win.strCmpNIA item.name tmpItem.name tmpItem.name.length &&
      item.name.length = tmpItem.name.length &&
      item.md5.take (MD5_DIGEST_LENGTH * 2) = tmpItem.md5.take (MD5_DIGEST_LENGTH * 2)

omit [DecidableEq φ] in
/-- `CompareFile`: the new items with their marks, and whether there is one. -/
def compareFile (old new : List RopCfgItem) : List RopCfgItem × Bool :=
  let marked := fun item => !findItem win old item || isItemSync win old item
  (new.map fun item => if marked item then { item with bNeedUpdate := true } else item,
    new.any marked)

/-- The first loop of `RopCfgFile::Update`, over the answers to its downloads: `iRet`, the vector
`updateItems`, and the disk. -/
def downloadItems : List RopCfgItem → (ℕ → HttpAnswer) → Disk φ → ℤ × List RopCfgItem × Disk φ
  | [], _, disk => (0, [], disk)
  | item :: items, answers, disk =>
    if item.bNeedUpdate then
      let done := item.update win (answers 0) disk
      if done.1 ≠ 0 then (done.1, [item], done.2)
      else
        let more := downloadItems items (fun i => answers (i + 1)) done.2
        (more.1, item :: more.2.1, more.2.2)
    else downloadItems items answers disk

/-- What an update did: its return value, the items that `CopyFile` was called for, whether the
configuration was replaced, and the disk. -/
structure UpdateRun (φ : Type*) where
  ret : Bool
  copied : List RopCfgItem
  replaced : Bool
  disk : Disk φ

/-- `Update` with a new configuration that was compared with the old one. -/
def update (items : List RopCfgItem) (answers : ℕ → HttpAnswer) (disk : Disk φ) : UpdateRun φ :=
  let loop := downloadItems win items answers disk
  if loop.1 = 0 then
    -- the second loop of `RopCfgFile::Update`, and "Replace CFG NOW!"
    let disk := loop.2.1.foldl (RopCfgItem.copyFile win) loop.2.2
    let disk := Function.update disk (win.fileOf CFG_NAME) none
    ⟨true, loop.2.1, true, moveFile win TEMP_CFG_NAME CFG_NAME disk⟩
  else ⟨false, [], false, loop.2.2⟩

end

/-- The items that need updating, each with the answer to its download. -/
def outcomes : List RopCfgItem → (ℕ → HttpAnswer) → List (RopCfgItem × HttpAnswer)
  | [], _ => []
  | item :: items, answers =>
    if item.bNeedUpdate then (item, answers 0) :: outcomes items fun i => answers (i + 1)
    else outcomes items answers

/-- The downloads up to the first that returns 0. -/
def attempted : List (RopCfgItem × HttpAnswer) → List (RopCfgItem × HttpAnswer)
  | [] => []
  | o :: os => if o.2.ret = 0 then [o] else o :: attempted os

/-- Every item that needs updating is downloaded. -/
def AllDownloaded (os : List (RopCfgItem × HttpAnswer)) : Prop := ∀ o ∈ os, 0 < o.2.ret

section

variable {φ : Type*} [DecidableEq φ]

/-- The file of an item or of the configuration. -/
def Installed (win : Windows φ) (items : List RopCfgItem) (f : φ) : Prop :=
  f = win.fileOf CFG_NAME ∨ ∃ item ∈ items, f = win.fileOf item.destFile

/-- An update installs something only if everything is there, and otherwise changes nothing that is
installed; so the next run, which reads the configuration again, finds the same items. -/
structure AllOrNothing (win : Windows φ) (old new : List RopCfgItem) (answers : ℕ → HttpAnswer) :
    Prop where
  only : ∀ disk, let run := update win (compareFile win old new).1 answers disk
    run.replaced = true ∨ run.copied ≠ [] →
      AllDownloaded (outcomes (compareFile win old new).1 answers)
  same : ¬AllDownloaded (outcomes (compareFile win old new).1 answers) →
    ∀ disk, let run := update win (compareFile win old new).1 answers disk
      (∀ f, Installed win (old ++ new) f → run.disk f = disk f) ∧
        ∀ read : Option File → List RopCfgItem,
          compareFile win (read (run.disk (win.fileOf CFG_NAME))) new =
            compareFile win (read (disk (win.fileOf CFG_NAME))) new

/-- A download comes to nothing, and no download up to it has gone to an installed file. -/
def StopsClean (win : Windows φ) (items : List RopCfgItem)
    (os : List (RopCfgItem × HttpAnswer)) : Prop :=
  (∃ o ∈ os, o.2.ret = 0) ∧
    ∀ o ∈ attempted os, ¬Installed win items (win.fileOf o.1.tmpFile)

/-! ## The loops -/

variable {win : Windows φ} {items : List RopCfgItem} {answers : ℕ → HttpAnswer}
  {os : List (RopCfgItem × HttpAnswer)} {disk : Disk φ} {f : φ}

/-- The disk after some downloads. -/
def downloaded (win : Windows φ) (os : List (RopCfgItem × HttpAnswer)) (disk : Disk φ) : Disk φ :=
  os.foldl (fun disk o => (o.1.downloadFile win o.2 disk).2) disk

theorem downloaded_cons (o : RopCfgItem × HttpAnswer) (os : List (RopCfgItem × HttpAnswer))
    (disk : Disk φ) : downloaded win (o :: os) disk =
      downloaded win os (o.1.downloadFile win o.2 disk).2 := rfl

theorem update_eq (item : RopCfgItem) (answer : HttpAnswer) (disk : Disk φ) :
    item.update win answer disk =
      (if answer.ret = 0 then -1 else 0, (item.downloadFile win answer disk).2) := by
  have hret : (item.downloadFile win answer disk).1 = answer.ret := rfl
  rw [RopCfgItem.update, hret]
  split_ifs
  · rfl
  · rfl

/-- The first loop stops behind the first download that returns 0. -/
theorem downloadItems_eq (win : Windows φ) (items : List RopCfgItem) (answers : ℕ → HttpAnswer)
    (disk : Disk φ) :
    downloadItems win items answers disk =
      (if ∃ o ∈ outcomes items answers, o.2.ret = 0 then -1 else 0,
        (attempted (outcomes items answers)).map Prod.fst,
        downloaded win (attempted (outcomes items answers)) disk) := by
  induction items generalizing answers disk with
  | nil => simp [downloadItems, outcomes, attempted, downloaded]
  | cons item items ih =>
    rw [downloadItems, outcomes]
    by_cases hneed : item.bNeedUpdate = true
    · rw [if_pos hneed, if_pos hneed, update_eq, attempted]
      dsimp only
      by_cases hzero : (answers 0).ret = 0
      · simp [hzero, downloaded]
      · rw [if_neg hzero, if_neg hzero, if_neg (not_not.mpr rfl), ih]
        have hmem : (∃ o ∈ (item, answers 0) :: outcomes items fun i => answers (i + 1),
            o.2.ret = 0) ↔ ∃ o ∈ outcomes items fun i => answers (i + 1), o.2.ret = 0 := by
          simp only [List.mem_cons, or_and_right, exists_or, exists_eq_left, hzero, false_or]
        simp only [hmem, List.map_cons, downloaded_cons]
    · rw [if_neg hneed, if_neg hneed, ih]

/-- Without a download that returns 0 all of them are attempted. -/
theorem attempted_of_forall (h : ∀ o ∈ os, o.2.ret ≠ 0) : attempted os = os := by
  induction os with
  | nil => rfl
  | cons o os ih =>
    obtain ⟨hne, hos⟩ := List.forall_mem_cons.mp h
    rw [attempted, if_neg hne, ih hos]

/-- A download writes nothing but its temporary file. -/
theorem downloadFile_of_ne (item : RopCfgItem) (answer : HttpAnswer) (disk : Disk φ)
    (hf : f ≠ win.fileOf item.tmpFile) : (item.downloadFile win answer disk).2 f = disk f := by
  cases answer with
  | noUrlmon => simp [RopCfgItem.downloadFile, httpDownloadFile, hf]
  | failed left => simp [RopCfgItem.downloadFile, httpDownloadFile, hf]
  | downloaded file opens => simp [RopCfgItem.downloadFile, httpDownloadFile, hf]

/-- What is in the temporary file then does not depend on what was there. -/
theorem downloadFile_self (item : RopCfgItem) (answer : HttpAnswer) (disk disk' : Disk φ) :
    (item.downloadFile win answer disk).2 (win.fileOf item.tmpFile) =
      (item.downloadFile win answer disk').2 (win.fileOf item.tmpFile) := by
  cases answer with
  | noUrlmon => simp [RopCfgItem.downloadFile, httpDownloadFile]
  | failed left => simp [RopCfgItem.downloadFile, httpDownloadFile]
  | downloaded file opens => simp [RopCfgItem.downloadFile, httpDownloadFile]

/-- Downloads write nothing but their temporary files. -/
theorem downloaded_of_ne (hf : ∀ o ∈ os, f ≠ win.fileOf o.1.tmpFile) (disk : Disk φ) :
    downloaded win os disk f = disk f := by
  induction os generalizing disk with
  | nil => rfl
  | cons o os ih =>
    obtain ⟨hne, hos⟩ := List.forall_mem_cons.mp hf
    rw [downloaded_cons, ih hos]
    exact downloadFile_of_ne o.1 o.2 disk hne

/-- What is in such a file then does not depend on what was there. -/
theorem downloaded_congr {disk disk' : Disk φ}
    (hf : disk f = disk' f ∨ ∃ o ∈ os, f = win.fileOf o.1.tmpFile) :
    downloaded win os disk f = downloaded win os disk' f := by
  induction os generalizing disk disk' with
  | nil => simpa [downloaded] using hf
  | cons o os ih =>
    rw [downloaded_cons, downloaded_cons]
    apply ih
    by_cases hone : f = win.fileOf o.1.tmpFile
    · left
      rw [hone]
      exact downloadFile_self o.1 o.2 disk disk'
    · rcases hf with heq | ⟨o', ho', hf'⟩
      · left
        rw [downloadFile_of_ne o.1 o.2 disk hone, downloadFile_of_ne o.1 o.2 disk' hone, heq]
      · rcases List.mem_cons.mp ho' with rfl | hos
        · exact absurd hf' hone
        · exact .inr ⟨o', hos, hf'⟩

/-- Where a download returns 0, nothing is installed. -/
theorem update_of_zero (h : ∃ o ∈ outcomes items answers, o.2.ret = 0) (disk : Disk φ) :
    update win items answers disk =
      ⟨false, [], false, downloaded win (attempted (outcomes items answers)) disk⟩ := by
  rw [update, downloadItems_eq, if_pos h]
  rfl

/-- Where none does, everything is. -/
theorem update_of_ne_zero (h : ¬∃ o ∈ outcomes items answers, o.2.ret = 0) (disk : Disk φ) :
    (update win items answers disk).replaced = true := by
  rw [update, downloadItems_eq, if_neg h]
  rfl

/-! ## When an update is all or nothing -/

/-- An update is all or nothing exactly if all downloads succeed, or one of them returns 0 and no
temporary file is an installed file. -/
theorem allOrNothing_iff (win : Windows φ) (old new : List RopCfgItem)
    (answers : ℕ → HttpAnswer) :
    AllOrNothing win old new answers ↔
      AllDownloaded (outcomes (compareFile win old new).1 answers) ∨
        StopsClean win (old ++ new) (outcomes (compareFile win old new).1 answers) := by
  constructor
  · intro h
    by_cases hall : AllDownloaded (outcomes (compareFile win old new).1 answers)
    · exact .inl hall
    right
    have hzero : ∃ o ∈ outcomes (compareFile win old new).1 answers, o.2.ret = 0 := by
      by_contra hnone
      exact hall (h.only (fun _ => none) (.inl (update_of_ne_zero hnone _)))
    refine ⟨hzero, fun o ho hinst => ?_⟩
    -- on a disk with something else there, the installed file is not as before
    let after := downloaded win (attempted (outcomes (compareFile win old new).1 answers))
      (fun _ => none) (win.fileOf o.1.tmpFile)
    let disk : Disk φ := fun _ => if after = none then some [] else none
    have hsame := (h.same hall disk).1 _ hinst
    rw [update_of_zero hzero] at hsame
    have hother : after = if after = none then some [] else none :=
      (downloaded_congr (.inr ⟨o, ho, rfl⟩)).trans hsame
    split_ifs at hother with hnone
    · rw [hnone] at hother
      cases hother
    · exact hnone hother
  · rintro (hall | ⟨hzero, hclean⟩)
    · exact ⟨fun _ _ => hall, fun hnot => absurd hall hnot⟩
    · have hsame : ∀ (disk : Disk φ) f, Installed win (old ++ new) f →
          (update win (compareFile win old new).1 answers disk).disk f = disk f := by
        intro disk f hf
        rw [update_of_zero hzero]
        refine downloaded_of_ne (fun o ho heq => ?_) disk
        exact hclean o ho (heq ▸ hf)
      refine ⟨fun disk => ?_, fun _ disk => ⟨hsame disk, fun read => ?_⟩⟩
      · rw [update_of_zero hzero]
        simp
      · rw [hsame disk _ (.inl rfl)]

end

/-! ## A download that fails -/

/-- A disk on which every path names a file of its own. -/
def plainDisk : Windows Path := ⟨id, fun a b n => a.take n = b.take n⟩

/-- A new item. -/
def newItem : RopCfgItem := ⟨['g'], [], ['.'], ['g'], ['e', 'x', 'e'], false⟩

/-- Its download fails, and the configuration is replaced. -/
theorem not_allOrNothing_failed :
    ¬∀ old new answers, AllOrNothing plainDisk old new answers := by
  intro h
  have hall := (h [] [newItem] fun _ => .failed none).only (fun _ => none) (.inl rfl)
  exact absurd (hall ({ newItem with bNeedUpdate := true }, .failed none) (by decide)) (by decide)

end Gendo.Client
