import Gendo.Client.CfgText

/-!
# Parameters of an update configuration

What the branches of the two `SetParam` do. A parameter holds the value that is assigned to it
(`get_assign`, `get_assign_file`), and the others what they held; only `ServerPath` keeps the end of
a longer path.
-/

namespace Gendo.Client.Cfg

open BufferedLines Shlwapi

/-! ## Parameters -/

/-- What a parameter holds. -/
inductive Held
  | text (text : List UInt8)
  | number (number : ℤ)
  /-- `orgLocalPath`, `LocalPath` and `ServerPath` -/
  | path (org directory server : List UInt8)
  /-- The last entry of `SupportOS`. -/
  | entry (last : Option UInt32)
  deriving DecidableEq, Repr

namespace ItemParam

/-- What a parameter of an item holds. -/
def get (item : RopCfgItem) : ItemParam → Held
  | nameOnServer => .text item.nameOnServer
  | extOnServer => .text item.extOnServer
  | nameOnLocal => .text item.nameOnLocal
  | extOnLocal => .text item.extOnLocal
  | localPath => .path item.orgLocalPath item.localPath item.serverPath
  | guid => .text item.guid
  | verOnServer => .text item.verOnServer
  | fileType => .number item.iFileType.toInt
  | supportOS => .entry item.supportOS.getLast?
  | downloadMask => .number item.downloadMask.toNat
  | sizeOnServer => .number item.sizeOnServer.toNat
  | md5 => .text item.md5

/-- What it holds with a value that is written. -/
def held (p : Process) (value : List UInt8) : ItemParam → Held
  | localPath => .path value (RopCfgItem.localPathOf p value) (RopCfgItem.pathOf value)
  | fileType => .number (atoi value).toInt
  | supportOS => .entry (some (atoi value).toUInt32)
  | downloadMask => .number (atoi value).toUInt32.toNat
  | sizeOnServer => .number (atoi value).toUInt32.toNat
  | _ => .text value

/-- There is room for a value. -/
def Holds (p : Process) (value : List UInt8) : ItemParam → Prop
  | localPath => value.length < MAX_NAME_LEN ∧ PathFits p value
  | fileType => True
  | supportOS => True
  | downloadMask => True
  | sizeOnServer => True
  | md5 => value.length < MD5_DIGEST_LENGTH * 2 + 1
  | _ => value.length < MAX_NAME_LEN

end ItemParam

namespace FileParam

/-- What a global parameter holds. -/
def get (cfg : RopCfgFile) : FileParam → Held
  | oemCompany => .text cfg.oemCompany
  | oemProduct => .text cfg.oemProduct
  | oemProgmenu => .text cfg.oemProgmenu
  | downloadmask => .number cfg.downloadmask.toInt
  | clientVersion => .text cfg.clientVersion
  | httpServerAddr => .text cfg.httpServerAddr
  | httpServerDownloadPort => .number cfg.serverDownloadPort.toInt
  | serverAddr => .text cfg.serverAddr
  | serverServicePort => .number cfg.serverServicePort.toInt
  | serverDownloadPath => .text cfg.serverDownloadPath
  | sleepBeforeDial => .number cfg.dialSleep.toNat
  | updateMsg1 => .text cfg.updateMsg1
  | updateMsg2 => .text cfg.updateMsg2
  | updateMsg3 => .text cfg.updateMsg3
  | updateMsg4 => .text cfg.updateMsg4
  | updateMsg5 => .text cfg.updateMsg5

/-- What it holds with a value that is written. -/
def held (value : List UInt8) : FileParam → Held
  | downloadmask => .number (atoi value).toInt
  | httpServerDownloadPort => .number (atoi value).toInt
  | serverServicePort => .number (atoi value).toInt
  | sleepBeforeDial => .number (atoi value).toUInt32.toNat
  | _ => .text value

/-- There is room for a value. -/
def Holds (value : List UInt8) : FileParam → Prop
  | downloadmask => True
  | httpServerDownloadPort => True
  | serverServicePort => True
  | sleepBeforeDial => True
  | updateMsg1 => value.length < MAX_NAME_LEN * 10
  | updateMsg2 => value.length < MAX_NAME_LEN * 10
  | updateMsg3 => value.length < MAX_NAME_LEN * 10
  | updateMsg4 => value.length < MAX_NAME_LEN * 10
  | updateMsg5 => value.length < MAX_NAME_LEN * 10
  | _ => value.length < MAX_NAME_LEN

end FileParam

/-- The name does not begin with `end`, and begins the name of a parameter only if it is this
name. -/
def PlainName {κ : Type} (table : List κ) (text : κ → List UInt8) (name : List UInt8) : Prop :=
  ¬Abbreviates (ascii "end") name ∧
    ∀ k ∈ table, Abbreviates name (text k) → SameText name (text k)

section

variable {p : Process} {item item' : RopCfgItem} {cfg cfg' : RopCfgFile} {value name : List UInt8}

theorem ItemParam.mem_chain (param : ItemParam) : param ∈ ItemParam.chain := by
  cases param <;> decide

theorem FileParam.mem_chain (param : FileParam) : param ∈ FileParam.chain := by
  cases param <;> decide

theorem ItemParam.unambiguous : Unambiguous ItemParam.chain ItemParam.text := by
  unfold Unambiguous
  decide

theorem FileParam.unambiguous : Unambiguous FileParam.chain FileParam.text := by
  unfold Unambiguous
  decide

theorem IsText.strTrimA_lineBlanks (h : IsText value) : strTrimA value lineBlanks = value :=
  strTrimA_of_trimmed (h.1.mono (by decide +kernel))

/-- A plain name is taken for the parameter of this name. -/
theorem byAbbrev_iff_of_plain {κ : Type} {table : List κ} {text : κ → List UInt8} {k : κ}
    (htable : Unambiguous table text) (hk : k ∈ table) (hname : PlainName table text name) :
    byAbbrev table text name = some k ↔ SameText name (text k) := by
  constructor
  · intro hfind
    exact hname.2 k hk (byAbbrev_eq_some hfind).2
  · exact byAbbrev_eq_some_of_sameText htable hk

theorem strCpyNA_of_length {n : ℕ} (h : value.length < n) : strCpyNA value n = value :=
  List.take_of_length_le (Nat.le_sub_one_of_lt h)

/-- A parameter holds what is assigned to it, if there is room; the one for the paths keeps the end
of a longer `ServerPath`. -/
theorem get_assign {param : ItemParam} (h : item.assign p value param = .ok item')
    (hholds : param.Holds p value) :
    param.get item' =
      if param = .localPath then
        .path value (RopCfgItem.localPathOf p value)
          (RopCfgItem.pathOf value ++ item.serverPath.drop (RopCfgItem.pathOf value).length)
      else param.held p value := by
  cases param with
  | localPath =>
    have hcopy := strCpyNA_of_length hholds.1
    rw [setLocalPath_eq h, hcopy]
    rfl
  | supportOS =>
    simp only [RopCfgItem.assign, bind_eq_ok] at h
    obtain ⟨_, _, hitem⟩ := h
    cases hitem
    simp [ItemParam.get, ItemParam.held]
  | fileType | downloadMask | sizeOnServer =>
    cases h
    rfl
  | _ =>
    rw [RopCfgItem.assign, copyText_self (by decide), strCpyNA_of_length hholds] at h
    cases h
    rfl

/-- The other parameters hold what they held. -/
theorem get_assign_of_ne {param other : ItemParam} (h : item.assign p value param = .ok item')
    (hne : other ≠ param) : other.get item' = other.get item := by
  cases param with
  | localPath =>
    rw [setLocalPath_eq h]
    cases other <;> first | rfl | exact absurd rfl hne
  | fileType | downloadMask | sizeOnServer =>
    cases h
    cases other <;> first | rfl | exact absurd rfl hne
  | _ =>
    simp only [RopCfgItem.assign, bind_eq_ok] at h
    obtain ⟨_, _, hitem⟩ := h
    cases hitem
    cases other <;> first | rfl | exact absurd rfl hne

theorem get_assign_file {param : FileParam} (h : cfg.assign value param = .ok cfg')
    (hholds : param.Holds value) : param.get cfg' = param.held value := by
  cases param with
  | downloadmask | httpServerDownloadPort | serverServicePort | sleepBeforeDial =>
    cases h
    rfl
  | _ =>
    rw [RopCfgFile.assign, copyText_self (by decide), strCpyNA_of_length hholds] at h
    cases h
    rfl

theorem get_assign_file_of_ne {param other : FileParam} (h : cfg.assign value param = .ok cfg')
    (hne : other ≠ param) : other.get cfg' = other.get cfg := by
  cases param with
  | downloadmask | httpServerDownloadPort | serverServicePort | sleepBeforeDial =>
    cases h
    cases other <;> first | rfl | exact absurd rfl hne
  | _ =>
    simp only [RopCfgFile.assign, bind_eq_ok] at h
    obtain ⟨_, _, hcfg⟩ := h
    cases hcfg
    cases other <;> first | rfl | exact absurd rfl hne

end

end Gendo.Client.Cfg
