import Gendo.Library.BufferedLines
import Gendo.Library.Pieces
import Gendo.Library.Shlwapi
import Gendo.Library.TextStream

/-!
# Items of the update configuration

`RopCfgBase::ParseLine` and `RopCfgItem`, with every write into an array of fixed size: a function
returns the array that is overrun, or what the source's function returns.

A string is the bytes in front of its NUL, and the text of the file is what is left of it.
-/

namespace Gendo.Client.Cfg

open BufferedLines Pieces Shlwapi TextStream

/-- `MAX_NAME_LEN`. -/
def MAX_NAME_LEN : ℕ := 32

/-- `MD5_DIGEST_LENGTH`. -/
def MD5_DIGEST_LENGTH : ℕ := 16

/-- The characters that `ParseLine` trims, `" \t\r\n"`. -/
def blanks : List UInt8 := [32, 9, 13, 10]

/-- The characters that `SetParam` trims, `"\t\r\n"`. -/
def lineBlanks : List UInt8 := [9, 13, 10]

/-- `atoi`, which stops at the bounds of an `int`. -/
def atoi (text : List UInt8) : Int32 :=
  Int32.ofInt (max (-2 ^ 31) (min (2 ^ 31 - 1) ((scanInt text).1.getD 0)))

/-! ## Arrays -/

/-- The arrays that the text of a file is copied to. -/
inductive Buffer
  /-- `Line` -/
  | line
  /-- `Name` -/
  | name
  /-- `Value` -/
  | value
  /-- An array of an object that `StrCpyNA` writes. -/
  | field
  /-- `prgpath` -/
  | prgpath
  /-- `Tmp_szValue` -/
  | tmpSzValue
  /-- `ServerPath` -/
  | serverPath
  /-- `LocalPath` -/
  | localPath
  /-- `SupportOS` -/
  | supportOS
  deriving DecidableEq, Repr

/-- The first `n` bytes of an array of this size are written. -/
def fill (buf : Buffer) (size n : ℕ) : Except Buffer Unit :=
  if n ≤ size then .ok () else .error buf

/-- The entry `i` of an array of this size is written. -/
def put (buf : Buffer) (size i : ℕ) : Except Buffer Unit :=
  if i < size then .ok () else .error buf

/-- `StrCpyNA(buf, text, n)`: the string in the array then. -/
def copyText (buf : Buffer) (size : ℕ) (text : List UInt8) (n : ℕ) :
    Except Buffer (List UInt8) := do
  fill buf size ((strCpyNA text n).length + 1)
  return strCpyNA text n

/-! ## Lines -/

/-- What `ParseLine` returns, with the strings in `lpName` and `lpValue`. -/
inductive LineType
  /-- 1, an empty line -/
  | empty
  /-- 2 -/
  | ends
  /-- 3 -/
  | param (name value : List UInt8)
  /-- 4 -/
  | item (name value : List UInt8)
  /-- -2 -/
  | bad
  deriving DecidableEq, Repr

/-- `ParseLine`, with the size of the arrays at `lpName` and `lpValue`. Each string has two NULs:
the one of `StrCpyNA`, and one behind it. -/
def parseLine (size : ℕ) (lpLine : List UInt8) : Except Buffer LineType :=
  let line := strTrimA lpLine blanks
  if line.length ≤ 0 then .ok .empty
  else if strCmpNIA line (ascii "end") 3 then .ok .ends
  else
    match strChrIA line 61 with
    | some pos => do
      let lpName ← copyText .name size line (pos + 1)
      put .name size (pos + 1)
      let lpValue ← copyText .value size (line.drop (pos + 1)) (line.length - pos)
      put .value size (line.length - pos)
      return .param (strTrimA lpName blanks) (strTrimA lpValue blanks)
    | none =>
      match strChrIA line 58 with
      | some pos => do
        let lpName ← copyText .name size line (pos + 1)
        put .name size (pos + 1)
        let lpValue ← copyText .value size (line.drop (pos + 1)) (line.length - pos)
        put .value size (line.length - pos + 1)
        return .item (strTrimA lpName blanks) (strTrimA lpValue blanks)
      | none => .ok .bad

/-- What `fgets` stored, as a string. -/
def cString (stored : List UInt8) : List UInt8 := stored.takeWhile (· ≠ 0)

/-! ## Items -/

/-- `RopCfgItem`. An array is given by the bytes in front of its first NUL, and `SupportOS` by its
entries below `iSupportOS`. -/
structure RopCfgItem where
  bNeedUpdate : Bool
  name : List UInt8
  tmpPath : List UInt8
  md5 : List UInt8
  nameOnServer : List UInt8
  extOnServer : List UInt8
  nameOnLocal : List UInt8
  extOnLocal : List UInt8
  localPath : List UInt8
  serverPath : List UInt8
  verOnServer : List UInt8
  orgLocalPath : List UInt8
  tmpSuffix : List UInt8
  guid : List UInt8
  iFileType : Int32
  supportOS : List UInt32
  downloadMask : UInt32
  sizeOnServer : UInt32
  deriving DecidableEq, Repr

/-- The process that an item is read in. -/
structure Process where
  /-- `ProgramPath`, the directory of the program -/
  programPath : List UInt8
  /-- The bytes behind `Tmp_szValue` up to a NUL. -/
  behindTmp : List UInt8
  /-- `GetModuleFileNameA` has room for 512 bytes. -/
  programPath_fits : programPath.length < 512

/-- The parameters that `RopCfgItem::SetParam` knows. -/
inductive ItemParam
  | nameOnServer
  | extOnServer
  | nameOnLocal
  | extOnLocal
  | localPath
  | guid
  | verOnServer
  | fileType
  | supportOS
  | downloadMask
  | sizeOnServer
  | md5
  deriving DecidableEq, Repr

namespace ItemParam

/-- The name of a parameter. -/
def text : ItemParam → List UInt8
  | nameOnServer => ascii "NameOnServer"
  | extOnServer => ascii "ExtOnServer"
  | nameOnLocal => ascii "NameOnLocal"
  | extOnLocal => ascii "ExtOnLocal"
  | localPath => ascii "LocalPath"
  | guid => ascii "Guid"
  | verOnServer => ascii "VerOnServer"
  | fileType => ascii "FileType"
  | supportOS => ascii "SupportOS"
  | downloadMask => ascii "DownloadMask"
  | sizeOnServer => ascii "SizeOnServer"
  | md5 => ascii "MD5"

/-- The comparisons of `RopCfgItem::SetParam`, in their order. -/
def chain : List ItemParam :=
  [nameOnServer, extOnServer, nameOnLocal, extOnLocal, localPath, guid, verOnServer, fileType,
    supportOS, downloadMask, sizeOnServer, md5]

end ItemParam

/-- `streplace` -/
def streplace (source : List UInt8) (och nch : UInt8) : List UInt8 :=
  source.map fun c => if c = och then nch else c

/-- The strings that `strtok` cuts a string into at `'\\'`. -/
def strtok (text : List UInt8) : List (List UInt8) := (pieces 92 text).filter (· ≠ [])

/-- Where `strtok` puts a NUL: at every separator that ends a string. -/
def strtokStores (text : List UInt8) : List ℕ :=
  (List.range text.length).filter fun i => text[i]? = some 92 ∧ 0 < i ∧ text[i - 1]? ≠ some 92

namespace RopCfgItem

/-- What `RopCfgItem::RopCfgItem` makes of the memory of a new object. -/
def new (raw : RopCfgItem) (szName : List UInt8) : Except Buffer RopCfgItem := do
  let name ← copyText .field MAX_NAME_LEN szName MAX_NAME_LEN
  return { raw with
    name := name
    bNeedUpdate := false
    supportOS := []
    nameOnServer := []
    extOnServer := []
    nameOnLocal := []
    extOnLocal := []
    localPath := []
    verOnServer := []
    serverPath := []
    tmpSuffix := ascii "tmp" }

/-- `SetPath`, as far as it is not commented out. -/
def setPath (item : RopCfgItem) (szTmpPath : List UInt8) : Except Buffer RopCfgItem := do
  let tmpPath ← copyText .field MAX_NAME_LEN szTmpPath MAX_NAME_LEN
  return { item with tmpPath := tmpPath }

/-- What is copied of the value of `LocalPath`, which has a slash at both ends. -/
def pathOf (szValue : List UInt8) : List UInt8 := (szValue.drop 1).take (szValue.length - 2)

/-- The string in `Tmp_szValue`. Where `memcpy` brought no NUL, it goes on behind the array. -/
def tmpText (p : Process) (szValue : List UInt8) : List UInt8 :=
  let prgpath := streplace (pathOf szValue) 47 92
  if prgpath.length < MAX_NAME_LEN then prgpath else prgpath.take MAX_NAME_LEN ++ p.behindTmp

/-- What is put together in `LocalPath`. -/
def localPathOf (p : Process) (szValue : List UInt8) : List UInt8 :=
  if szValue.length ≤ 2 then p.programPath
  else
    match strtok (tmpText p szValue) with
    | [] => p.programPath ++ 92 :: tmpText p szValue
    | strs => p.programPath ++ strs.flatMap fun strtmp => 92 :: strtmp

/-- The branch of `SetParam` for `LocalPath`. -/
def setLocalPath (p : Process) (item : RopCfgItem) (szValue : List UInt8) :
    Except Buffer RopCfgItem := do
  let orgLocalPath ← copyText .field MAX_NAME_LEN szValue MAX_NAME_LEN
  if szValue.length ≤ 2 then
    fill .localPath (MAX_NAME_LEN * 16) ((localPathOf p szValue).length + 1)
    return { item with orgLocalPath := orgLocalPath, localPath := localPathOf p szValue }
  else
    fill .prgpath 257 (szValue.length - 2)
    -- `memcpy` copies the string into `ServerPath` without its NUL
    fill .serverPath MAX_NAME_LEN (pathOf szValue).length
    forM (strtokStores (tmpText p szValue)) (put .tmpSzValue MAX_NAME_LEN)
    fill .localPath (MAX_NAME_LEN * 16) ((localPathOf p szValue).length + 1)
    return { item with
      orgLocalPath := orgLocalPath
      serverPath := pathOf szValue ++ item.serverPath.drop (pathOf szValue).length
      localPath := localPathOf p szValue }

/-- A branch of `SetParam`. -/
def assign (p : Process) (item : RopCfgItem) (szValue : List UInt8) :
    ItemParam → Except Buffer RopCfgItem
  | .nameOnServer => do
    let text ← copyText .field MAX_NAME_LEN szValue MAX_NAME_LEN
    return { item with nameOnServer := text }
  | .extOnServer => do
    let text ← copyText .field MAX_NAME_LEN szValue MAX_NAME_LEN
    return { item with extOnServer := text }
  | .nameOnLocal => do
    let text ← copyText .field MAX_NAME_LEN szValue MAX_NAME_LEN
    return { item with nameOnLocal := text }
  | .extOnLocal => do
    let text ← copyText .field MAX_NAME_LEN szValue MAX_NAME_LEN
    return { item with extOnLocal := text }
  | .localPath => item.setLocalPath p szValue
  | .guid => do
    let text ← copyText .field MAX_NAME_LEN szValue MAX_NAME_LEN
    return { item with guid := text }
  | .verOnServer => do
    let text ← copyText .field MAX_NAME_LEN szValue MAX_NAME_LEN
    return { item with verOnServer := text }
  | .fileType => .ok { item with iFileType := atoi szValue }
  | .supportOS => do
    -- `iSupportOS` is not compared with the size of the array
    put .supportOS 32 item.supportOS.length
    return { item with supportOS := item.supportOS ++ [(atoi szValue).toUInt32] }
  | .downloadMask => .ok { item with downloadMask := (atoi szValue).toUInt32 }
  | .sizeOnServer => .ok { item with sizeOnServer := (atoi szValue).toUInt32 }
  | .md5 => do
    let text ← copyText .field (MD5_DIGEST_LENGTH * 2 + 1) szValue (MD5_DIGEST_LENGTH * 2 + 1)
    return { item with md5 := text }

/-- The parameter that `SetParam` takes a name for. -/
def paramNamed (szName : List UInt8) : Option ItemParam :=
  byAbbrev ItemParam.chain ItemParam.text (strTrimA szName lineBlanks)

/-- `RopCfgItem::SetParam`: the item and the value returned. -/
def setParam (p : Process) (item : RopCfgItem) (szName szValue : List UInt8) :
    Except Buffer (RopCfgItem × ℤ) :=
  match paramNamed szName with
  | none => .ok (item, -1)
  | some param => do
    let item ← item.assign p (strTrimA szValue lineBlanks) param
    return (item, 0)

/-- The loop of `RopCfgItem::ReadAndInit` over at most this many lines: the item, the value
returned, and the text left. -/
def readLoop (p : Process) :
    ℕ → RopCfgItem → List UInt8 → Except Buffer (RopCfgItem × ℤ × List UInt8)
  | 0, item, text => .ok (item, 0, text)
  | fuel + 1, item, text =>
    match readLine 1022 text with
    | none => .ok (item, 0, text)
    | some (stored, text) => do
      fill .line 1024 (stored.length + 1)
      match ← parseLine 1024 (cString stored) with
      | .empty => readLoop p fuel item text
      | .ends => return (item, 0, text)
      | .param name value =>
        let (item, _) ← item.setParam p name value
        readLoop p fuel item text
      | .item _ _ => return (item, -1, text)
      | .bad => return (item, -2, text)

/-- `RopCfgItem::ReadAndInit`: there are no more lines than bytes. -/
def readAndInit (p : Process) (item : RopCfgItem) (text : List UInt8) :
    Except Buffer (RopCfgItem × ℤ × List UInt8) :=
  readLoop p text.length item text

end RopCfgItem

end Gendo.Client.Cfg
