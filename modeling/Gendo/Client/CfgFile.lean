import Gendo.Client.CfgItem

/-!
# The update configuration

`RopCfgFile` reads its own lines, and lets a new `RopCfgItem` read the lines behind each header; the
two read from one stream.
-/

namespace Gendo.Client.Cfg

open BufferedLines Shlwapi

/-- `CFG_ITEM_KEY`. -/
def CFG_ITEM_KEY : List UInt8 := ascii "CfgItem"

/-- `RopCfgFile`, as far as the text of a file sets it. -/
structure RopCfgFile where
  vItem : List RopCfgItem
  localPath : List UInt8
  oemCompany : List UInt8
  oemProduct : List UInt8
  oemProgmenu : List UInt8
  downloadmask : Int32
  clientVersion : List UInt8
  httpServerAddr : List UInt8
  serverDownloadPort : Int32
  serverAddr : List UInt8
  serverServicePort : Int32
  serverDownloadPath : List UInt8
  dialSleep : UInt32
  updateMsg1 : List UInt8
  updateMsg2 : List UInt8
  updateMsg3 : List UInt8
  updateMsg4 : List UInt8
  updateMsg5 : List UInt8
  deriving DecidableEq, Repr

/-- The parameters that `RopCfgFile::SetParam` knows. -/
inductive FileParam
  | oemCompany
  | oemProduct
  | oemProgmenu
  | downloadmask
  | clientVersion
  | httpServerAddr
  | httpServerDownloadPort
  | serverAddr
  | serverServicePort
  | serverDownloadPath
  | sleepBeforeDial
  | updateMsg1
  | updateMsg2
  | updateMsg3
  | updateMsg4
  | updateMsg5
  deriving DecidableEq, Repr

namespace FileParam

/-- The name of a parameter. -/
def text : FileParam → List UInt8
  | oemCompany => ascii "OEMCompany"
  | oemProduct => ascii "OEMProduct"
  | oemProgmenu => ascii "OEMProgmenu"
  | downloadmask => ascii "Downloadmask"
  | clientVersion => ascii "ClientVersion"
  | httpServerAddr => ascii "HttpServerAddr"
  | httpServerDownloadPort => ascii "HttpServerDownloadPort"
  | serverAddr => ascii "ServerAddr"
  | serverServicePort => ascii "ServerServicePort"
  | serverDownloadPath => ascii "ServerDownloadPath"
  | sleepBeforeDial => ascii "SleepBeforeDial"
  | updateMsg1 => ascii "UpdateMsg1"
  | updateMsg2 => ascii "UpdateMsg2"
  | updateMsg3 => ascii "UpdateMsg3"
  | updateMsg4 => ascii "UpdateMsg4"
  | updateMsg5 => ascii "UpdateMsg5"

/-- The comparisons of `RopCfgFile::SetParam`, in their order. -/
def chain : List FileParam :=
  [oemCompany, oemProduct, oemProgmenu, downloadmask, clientVersion, httpServerAddr,
    httpServerDownloadPort, serverAddr, serverServicePort, serverDownloadPath, sleepBeforeDial,
    updateMsg1, updateMsg2, updateMsg3, updateMsg4, updateMsg5]

end FileParam

namespace RopCfgFile

/-- A branch of `RopCfgFile::SetParam`. -/
def assign (cfg : RopCfgFile) (szValue : List UInt8) : FileParam → Except Buffer RopCfgFile
  | .oemCompany => do
    let text ← copyText .field MAX_NAME_LEN szValue MAX_NAME_LEN
    return { cfg with oemCompany := text }
  | .oemProduct => do
    let text ← copyText .field MAX_NAME_LEN szValue MAX_NAME_LEN
    return { cfg with oemProduct := text }
  | .oemProgmenu => do
    let text ← copyText .field MAX_NAME_LEN szValue MAX_NAME_LEN
    return { cfg with oemProgmenu := text }
  | .downloadmask => .ok { cfg with downloadmask := atoi szValue }
  | .clientVersion => do
    let text ← copyText .field MAX_NAME_LEN szValue MAX_NAME_LEN
    return { cfg with clientVersion := text }
  | .httpServerAddr => do
    let text ← copyText .field MAX_NAME_LEN szValue MAX_NAME_LEN
    return { cfg with httpServerAddr := text }
  | .httpServerDownloadPort => .ok { cfg with serverDownloadPort := atoi szValue }
  | .serverAddr => do
    let text ← copyText .field MAX_NAME_LEN szValue MAX_NAME_LEN
    return { cfg with serverAddr := text }
  | .serverServicePort => .ok { cfg with serverServicePort := atoi szValue }
  | .serverDownloadPath => do
    let text ← copyText .field MAX_NAME_LEN szValue MAX_NAME_LEN
    return { cfg with serverDownloadPath := text }
  | .sleepBeforeDial => .ok { cfg with dialSleep := (atoi szValue).toUInt32 }
  | .updateMsg1 => do
    let text ← copyText .field (MAX_NAME_LEN * 10) szValue (MAX_NAME_LEN * 10)
    return { cfg with updateMsg1 := text }
  | .updateMsg2 => do
    let text ← copyText .field (MAX_NAME_LEN * 10) szValue (MAX_NAME_LEN * 10)
    return { cfg with updateMsg2 := text }
  | .updateMsg3 => do
    let text ← copyText .field (MAX_NAME_LEN * 10) szValue (MAX_NAME_LEN * 10)
    return { cfg with updateMsg3 := text }
  | .updateMsg4 => do
    let text ← copyText .field (MAX_NAME_LEN * 10) szValue (MAX_NAME_LEN * 10)
    return { cfg with updateMsg4 := text }
  | .updateMsg5 => do
    let text ← copyText .field (MAX_NAME_LEN * 10) szValue (MAX_NAME_LEN * 10)
    return { cfg with updateMsg5 := text }

/-- The parameter that `SetParam` takes a name for. -/
def paramNamed (szName : List UInt8) : Option FileParam :=
  byAbbrev FileParam.chain FileParam.text (strTrimA szName lineBlanks)

/-- `RopCfgFile::SetParam`: the configuration and the value returned. -/
def setParam (cfg : RopCfgFile) (szName szValue : List UInt8) : Except Buffer (RopCfgFile × ℤ) :=
  match paramNamed szName with
  | none => .ok (cfg, -1)
  | some param => do
    let cfg ← cfg.assign (strTrimA szValue lineBlanks) param
    return (cfg, 0)

/-- A new item that reads its lines: the item, and the text left. -/
def readItem (p : Process) (raw : RopCfgItem) (cfg : RopCfgFile) (name text : List UInt8) :
    Except Buffer (RopCfgItem × List UInt8) := do
  let item ← RopCfgItem.new raw name
  let item ← item.setPath cfg.localPath
  let (item, _, text) ← item.readAndInit p text
  return (item, text)

/-- The loop of `RopCfgFile::ReadAndInit` over at most this many lines: the configuration and the
value returned. The `n`-th item is made in the memory `raw n`. -/
def readLoop (p : Process) (raw : ℕ → RopCfgItem) :
    ℕ → RopCfgFile → List UInt8 → Except Buffer (RopCfgFile × ℤ)
  | 0, cfg, _ => .ok (cfg, 0)
  | fuel + 1, cfg, text =>
    match readLine 511 text with
    | none => .ok (cfg, 0)
    | some (stored, text) => do
      fill .line 512 (stored.length + 1)
      match ← parseLine 128 (cString stored) with
      | .empty => readLoop p raw fuel cfg text
      | .ends => return (cfg, 0)
      | .param name value =>
        let (cfg, _) ← cfg.setParam name value
        readLoop p raw fuel cfg text
      | .item name value =>
        -- a value that is only the beginning of the key is enough
        if strCmpNIA value CFG_ITEM_KEY value.length then
          let (item, text) ← readItem p (raw cfg.vItem.length) cfg name text
          readLoop p raw fuel { cfg with vItem := cfg.vItem ++ [item] } text
        else readLoop p raw fuel cfg text
      | .bad => return (cfg, -2)

/-- `RopCfgFile::ReadAndInit`: there are no more lines than bytes. -/
def readAndInit (p : Process) (raw : ℕ → RopCfgItem) (cfg : RopCfgFile) (text : List UInt8) :
    Except Buffer (RopCfgFile × ℤ) :=
  readLoop p raw text.length cfg text

end RopCfgFile

end Gendo.Client.Cfg
