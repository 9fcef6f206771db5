import Gendo.Library.BufferedLines
import Gendo.Server.UserDb
import Mathlib.Data.List.DropRight

/-!
# The config file

The functions of `lib-file.c` that read and change single lines of a file, and `config_get` and
`config_set` of `lib-config.c` on top of them. A file is its bytes, and every operation on it
succeeds. A stream that is read with `fgets` is the list of the lines to come; all buffers are
equally long, so that every pass sees the same lines.
-/

namespace Gendo

open BufferedLines

/-- `LINE_BUF_LEN`. -/
def LINE_BUF_LEN : ℕ := 8192

/-- The lines of a file, as `fgets` returns them. -/
def fileLines (file : List UInt8) : List (List UInt8) :=
  lines (LINE_BUF_LEN - 1) (LINE_BUF_LEN - 1) file

/-! ## Lines -/

/-- `IsSpace`. -/
def isSpace (c : UInt8) : Bool := c = 32 || c = 9

/-- `IsEOL`. -/
def isEOL (c : UInt8) : Bool := c = 0 || c = 10 || c = 13

/-- `IsNoteLine`. -/
def isNoteLine (line : List UInt8) : Bool := (line.dropWhile (· = 32)).head? = some 35

/-- What `GetLine` does with one line: skip it, or return what is left of it without the blanks
around it. -/
def lineContent (line : List UInt8) : Option (List UInt8) :=
  if isNoteLine line then none
  -- behind an empty string there is its NUL
  else if isEOL (line.headD 0) then none
  else
    -- from the first end of line on, the line is cut off
    let head := line.takeWhile fun c => !isEOL c
    let content := (head.rdropWhile fun c => isSpace c || isEOL c).dropWhile isSpace
    if content = [] then none else some content

/-- `GetLine`: the next line that is not skipped, and what is left of the stream. -/
def getLine : List (List UInt8) → Option (List UInt8 × List (List UInt8))
  | [] => none
  | line :: rest =>
    match lineContent line with
    | none => getLine rest
    | some content => some (content, rest)

/-- The default separators of `GetField` and `vgetw`. -/
def isSep (c : UInt8) : Bool := c = 32 || c = 9 || c = 10 || c = 13

/-- `GetField(line, NULL, 1)`, the first field of a line. -/
def getField (line : List UInt8) : Option (List UInt8) :=
  let field := (line.dropWhile isSep).takeWhile fun c => !isSep c
  if field = [] then none else some (field.take (LINE_BUF_LEN - 1))

/-- `vgetw(line, NULL, 0, field, len)`, what follows the first field. -/
def vgetw (line : List UInt8) (len : ℕ) : List UInt8 :=
  ((line.dropWhile fun c => !isSep c).dropWhile isSpace).take (len - 1)

/-! ## Files -/

/-- The second pass of `IsInFileField`: the number of the line that ends at `place`, from `pos`
and the number `i` on. -/
def lineEndingAt (place pos i : ℕ) : List (List UInt8) → ℕ
  | [] => i
  | line :: rest =>
    if pos + line.length = place then i + 1
    else lineEndingAt place (pos + line.length) (i + 1) rest

/-- The first pass of `IsInFileField`, from `pos` on. -/
def searchField (file : List (List UInt8)) (str : List UInt8) (pos : ℕ) :
    List (List UInt8) → ℕ
  | [] => 0
  | line :: rest =>
    if (lineContent line).bind getField = some str then
      -- the position of the stream is behind the line
      lineEndingAt (pos + line.length) 0 0 file
    else searchField file str (pos + line.length) rest

/-- `IsInFileField(fname, str, 1)`: the number of the first line with this first field, or 0. -/
def isInFileField (file str : List UInt8) : ℕ := searchField (fileLines file) str 0 (fileLines file)

/-- `FileToLine`: the stream at the line with this number. -/
def fileToLine (file : List UInt8) (line : ℕ) : List (List UInt8) :=
  (fileLines file).drop (line - 1)

/-- The bytes of a line that `fprintf` with `%s` writes. -/
def printed (line : List UInt8) : List UInt8 := line.takeWhile (· ≠ 0)

/-- `ReplaceLine`. -/
def replaceLine (file line : List UInt8) (ln : ℕ) : List UInt8 :=
  -- the lines in front are copied as bytes, those behind with `fprintf`
  let kept := ((fileLines file).take (ln - 1)).flatten
  file.take kept.length ++ (line ++ [LF]) ++ (((fileToLine file ln).drop 1).map printed).flatten

/-- `AppendLine`. At the end of an empty file, `fgetc` returns `EOF`. -/
def appendLine (file line : List UInt8) : List UInt8 :=
  match file.getLast? with
  | none => file ++ [LF] ++ (line ++ [LF])
  -- a text whose last line has no end gets one first
  | some c => if isEOL c then file ++ (line ++ [LF]) else file ++ [LF] ++ (line ++ [LF])

/-! ## The table -/

/-- `enum config_type`. -/
inductive ConfigType
  | gasIp
  | gasPort
  | gasDebugPort
  | gasMaxThread
  | gasMaxConn
  | gasId
  | dbsIp
  | dbsPort
  | dbsDbName
  | dbsDbUser
  | dbsDbPwd
  | dbsDbConnect
  | lgsIp
  | lgsPort
  | aesCryptString
  deriving DecidableEq, Repr

/-- `struct config_pacos`. -/
structure ConfigPacos where
  id : ConfigType
  name : List UInt8
  defaultVal : List UInt8

/-- `cfg_pacos`. -/
def cfgPacos : List ConfigPacos :=
  [⟨.gasIp, ascii "gas_ip", ascii "127.0.0.1"⟩,
    ⟨.gasPort, ascii "gas_port", ascii "8888"⟩,
    ⟨.gasDebugPort, ascii "gas_debug_port", ascii "8889"⟩,
    ⟨.gasMaxThread, ascii "gas_max_thread", ascii "8"⟩,
    ⟨.gasMaxConn, ascii "gas_max_connect", ascii "1024"⟩,
    ⟨.gasId, ascii "gas_id", ascii "1"⟩,
    ⟨.dbsIp, ascii "db_server_ip", ascii "127.0.0.1"⟩,
    ⟨.dbsPort, ascii "db_server_port", ascii "3306"⟩,
    ⟨.dbsDbName, ascii "db_server_dbname", ascii "openvpn"⟩,
    ⟨.dbsDbUser, ascii "db_server_user", ascii "root"⟩,
    ⟨.dbsDbPwd, ascii "db_server_pwd", ascii "root"⟩,
    ⟨.dbsDbConnect, ascii "db_server_connect", ascii "20"⟩,
    ⟨.lgsIp, ascii "log_server_ip", ascii "127.0.0.1"⟩,
    ⟨.lgsPort, ascii "log_server_port", ascii "8890"⟩,
    ⟨.aesCryptString, ascii "AES_crypt_string", ascii "1234567890-=][po"⟩]

/-- One round of the loop of `config_get`. `GetLine` finds a line again that was found before. -/
def getPacos (file : List UInt8) (pacos : ConfigPacos) : Option (List UInt8) :=
  let line := isInFileField file pacos.name
  if line ≠ 0 then (getLine (fileToLine file line)).map fun p => vgetw p.1 LINE_BUF_LEN
  else some pacos.defaultVal

/-- `config_get`: the result, or `none` for `ERROR`. -/
def configGet (file : List UInt8) (id : ConfigType) : Option (List UInt8) :=
  match cfgPacos.find? (·.id = id) with
  | none => none
  | some pacos => getPacos file pacos

/-- One round of the loop of `config_set`, for a value as `vsprintf` formats it. -/
def setPacos (file value : List UInt8) (pacos : ConfigPacos) : List UInt8 :=
  let buf := pacos.name ++ (32 :: value)
  -- a key that has a line keeps its place
  let line := isInFileField file pacos.name
  if line ≠ 0 then replaceLine file buf line else appendLine file buf

/-- `config_set`: what it returns, and the file. -/
def configSet (file : List UInt8) (id : ConfigType) (value : List UInt8) : ℤ × List UInt8 :=
  cfgPacos.foldl
    (fun r pacos => if pacos.id = id then (OK, setPacos r.2 value pacos) else r) (ERROR, file)

/-! ## Names and defaults -/

/-- The entry of an id. -/
def ConfigType.pacos (id : ConfigType) : ConfigPacos :=
  (cfgPacos.find? (·.id = id)).getD ⟨id, [], []⟩

/-- There is one entry for each id. -/
theorem find_cfgPacos (id : ConfigType) :
    cfgPacos.find? (·.id = id) = some id.pacos ∧ id.pacos.id = id := by
  cases id <;> exact ⟨rfl, rfl⟩

theorem mem_cfgPacos (id : ConfigType) : id.pacos ∈ cfgPacos :=
  List.mem_of_find?_eq_some (find_cfgPacos id).1

/-- Different ids have different names. -/
theorem name_injective {id id' : ConfigType} (h : id.pacos.name = id'.pacos.name) : id = id' := by
  have hall : ∀ p ∈ cfgPacos, ∀ p' ∈ cfgPacos, p.name = p'.name → p.id = p'.id := by
    decide +kernel
  have hid := hall _ (mem_cfgPacos id) _ (mem_cfgPacos id') h
  rwa [(find_cfgPacos id).2, (find_cfgPacos id').2] at hid

/-- A byte of a name is no blank, ends no line and starts no comment. -/
def isNameByte (c : UInt8) : Bool := !isSep c && !isEOL c && c ≠ 35

/-- A name is a short word, and `x` is no default. -/
theorem name_isWord (id : ConfigType) :
    id.pacos.name ≠ [] ∧ (∀ c ∈ id.pacos.name, isNameByte c = true) ∧
      1 < id.pacos.name.length ∧ id.pacos.name.length ≤ 17 ∧
      id.pacos.defaultVal ≠ ascii "x" := by
  have hall : ∀ p ∈ cfgPacos, p.name ≠ [] ∧ p.name.all isNameByte = true ∧
      1 < p.name.length ∧ p.name.length ≤ 17 ∧ p.defaultVal ≠ ascii "x" := by
    decide +kernel
  obtain ⟨hne, hbytes, hlen⟩ := hall _ (mem_cfgPacos id)
  exact ⟨hne, List.all_eq_true.1 hbytes, hlen⟩

end Gendo
