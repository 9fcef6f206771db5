import Gendo.Server.ConfigStore

/-!
# Errors of the config file

`config_set`, `config_remove` and `config_get` on a file that may be absent or closed to the
process, and on a system whose calls may fail. `AppendLine`, `ReplaceLine` and `DeleteLine` tell a
failure with `false`, which is 0, and the callers pass on what is not `true`: 0 is `OK`. A change
that is made although `truncate` failed is no better, since its result is not looked at.

`configErrors_iff` says when an `OK` can be trusted all the same.
-/

namespace Gendo

open BufferedLines ByteMemory

/-! ## Files and system calls -/

/-- A file that exists. -/
structure DiskFile where
  bytes : List UInt8
  readable : Bool
  writable : Bool

/-- How `FileCP` gets on with a file that exists. -/
inductive CopyAnswer
  | copied
  /-- One of the two files is not opened. -/
  | notOpened
  /-- A `write` fails. -/
  | notWritten
  /-- A `read` fails. -/
  | notRead
  deriving DecidableEq, Repr

/-- What the system calls of one operation answer; opening takes the permission as well. -/
structure FileAnswers where
  /-- `conf_init_lock` returns a descriptor. -/
  lock : Bool
  /-- `fopen` for reading. -/
  openRead : Bool
  copy : CopyAnswer
  /-- `fopen` of the copy. -/
  openTmp : Bool
  truncate : Bool
  /-- `fopen` for appending. -/
  openAppend : Bool
  /-- `fopen` for reading and writing. -/
  openUpdate : Bool

/-- A system whose calls succeed. -/
def FileAnswers.succeed : FileAnswers := ⟨true, true, .copied, true, true, true, true⟩

/-- A `BOOL`, as a caller has it in an `int`. -/
def ofBOOL (b : Bool) : ℤ := if b then 1 else 0

/-- What `config_set` and `config_remove` make of it. -/
def okOf (ret : ℤ) : ℤ := if ret = 1 then OK else ret

/-- `FileCP`, and the file that is copied. It does not end (`none`) if a `read` fails: `len` is
unsigned, and equal to what the `write` of that many bytes returns. -/
def fileCP (a : CopyAnswer) : Option DiskFile → Option (Bool × Option DiskFile)
  | none => some (true, some ⟨[], true, true⟩)
  | some f =>
    match a with
    | .copied => some (true, some f)
    | .notOpened => some (false, some f)
    | .notWritten => some (false, some f)
    | .notRead => none

/-- `ReplaceLine` and `DeleteSomeLine`: what the file is after the copy was made, if `new` is
written in place of the line. The result of `truncate` is not looked at. -/
def changeLine (a : FileAnswers) (f : DiskFile) (new : List UInt8) (ln : ℕ) : Bool × DiskFile :=
  let kept := ((fileLines f.bytes).take (ln - 1)).flatten
  let bytes := if f.writable && a.truncate then f.bytes.take kept.length else f.bytes
  if f.writable && a.openAppend then
    (true, { f with
      bytes := bytes ++ new ++ (((fileToLine f.bytes ln).drop 1).map printed).flatten })
  else (false, { f with bytes := bytes })

/-- The copy, and the change of the file behind it. -/
def changeLineCall (a : FileAnswers) (s : Option DiskFile) (new : List UInt8) (ln : ℕ) :
    Option (Bool × Option DiskFile) :=
  match fileCP a.copy s with
  | none => none
  | some (true, some f) =>
    if a.openTmp then some ((changeLine a f new ln).1, some (changeLine a f new ln).2)
    else some (false, some f)
  | some (_, s) => some (false, s)

/-- `ReplaceLine`. -/
def replaceLineCall (a : FileAnswers) (s : Option DiskFile) (line : List UInt8) (ln : ℕ) :
    Option (Bool × Option DiskFile) := changeLineCall a s (line ++ [LF]) ln

/-- `DeleteLine`. -/
def deleteLineCall (a : FileAnswers) (s : Option DiskFile) (ln : ℕ) :
    Option (Bool × Option DiskFile) := changeLineCall a s [] ln

/-- `AppendLine`. -/
def appendLineCall (a : FileAnswers) (s : Option DiskFile) (line : List UInt8) :
    Bool × Option DiskFile :=
  match s with
  | none => (false, none)
  | some f =>
    if f.readable && f.writable && a.openUpdate then
      (true, some { f with bytes := appendLine f.bytes line })
    else (false, some f)

/-- `IsInFileField(CONFIG_FILE, str, 1)`. A file that is not opened has no line. -/
def isInFileFieldCall (a : FileAnswers) (s : Option DiskFile) (str : List UInt8) : ℕ :=
  match s with
  | none => 0
  | some f => if f.readable && a.openRead then isInFileField f.bytes str else 0

/-! ## The callers -/

/-- The change that `config_set` makes for one entry. -/
def setPacosCall (a : FileAnswers) (s : Option DiskFile) (value : List UInt8)
    (pacos : ConfigPacos) : Option (Bool × Option DiskFile) :=
  let buf := pacos.name ++ (32 :: value)
  let line := isInFileFieldCall a s pacos.name
  if line ≠ 0 then replaceLineCall a s buf line else some (appendLineCall a s buf)

/-- `config_set`, for a value as `vsprintf` formats it: what it returns, and the file. -/
def configSetCall (a : FileAnswers) (s : Option DiskFile) (id : ConfigType) (value : List UInt8) :
    Option (ℤ × Option DiskFile) :=
  if a.lock then
    let r := cfgPacos.foldlM (fun r pacos =>
      if pacos.id = id then (setPacosCall a r.2 value pacos).map fun q => (ofBOOL q.1, q.2)
      else some r) (ERROR, s)
    r.map fun r => (okOf r.1, r.2)
  else some (ERROR, s)

/-- The loop of `config_remove`. -/
def removePacosCall (a : FileAnswers) (s : Option DiskFile) (id : ConfigType) :
    List ConfigPacos → Option (ℤ × Option DiskFile)
  | [] => some (ERROR, s)
  | pacos :: rest =>
    if pacos.id = id ∧ isInFileFieldCall a s pacos.name ≠ 0 then
      (deleteLineCall a s (isInFileFieldCall a s pacos.name)).map fun q => (ofBOOL q.1, q.2)
    else removePacosCall a s id rest

/-- `config_remove`. -/
def configRemoveCall (a : FileAnswers) (s : Option DiskFile) (id : ConfigType) :
    Option (ℤ × Option DiskFile) :=
  if a.lock then
    (removePacosCall a s id cfgPacos).map fun r => (okOf r.1, r.2)
  else some (ERROR, s)

/-- `config_get`: the result, or `none` for `ERROR`. -/
def configGetCall (a : FileAnswers) (s : Option DiskFile) (id : ConfigType) :
    Option (List UInt8) :=
  if a.lock then
    match cfgPacos.find? (·.id = id) with
    | none => none
    | some pacos =>
      if isInFileFieldCall a s pacos.name ≠ 0 then s.bind fun f => getPacos f.bytes pacos
      else some pacos.defaultVal
  else none

section Calls

variable {a : FileAnswers} {s s' : Option DiskFile} {f : DiskFile} {id : ConfigType}
  {str new line v : List UInt8} {pre post : List (List UInt8)}

/-- A failure that was told with `false` is `OK`. -/
theorem okOf_ofBOOL (b : Bool) : okOf (ofBOOL b) = OK := by cases b <;> rfl

/-- The loop over the table makes one round. -/
theorem foldlM_cfgPacos (g : Option DiskFile → ConfigPacos → Option (ℤ × Option DiskFile)) :
    cfgPacos.foldlM (fun r pacos => if pacos.id = id then g r.2 pacos else some r) (ERROR, s) =
      g s id.pacos := by
  cases id <;> simp [cfgPacos, ConfigType.pacos]

theorem removePacosCall_eq :
    removePacosCall a s id cfgPacos =
      if isInFileFieldCall a s id.pacos.name ≠ 0 then
        (deleteLineCall a s (isInFileFieldCall a s id.pacos.name)).map fun q => (ofBOOL q.1, q.2)
      else some (ERROR, s) := by
  cases id <;> simp [cfgPacos, ConfigType.pacos, removePacosCall]

/-- Behind the lock, `config_set` returns nothing but `OK`. -/
theorem configSetCall_eq (hlock : a.lock = true) :
    configSetCall a s id v = (setPacosCall a s v id.pacos).map fun q => (OK, q.2) := by
  rw [configSetCall, if_pos hlock]
  dsimp only
  rw [foldlM_cfgPacos fun s pacos => (setPacosCall a s v pacos).map fun q => (ofBOOL q.1, q.2),
    Option.map_map]
  simp only [Function.comp_def, okOf_ofBOOL]

/-- `config_remove` returns `ERROR` if it finds no line, and `OK` otherwise. -/
theorem configRemoveCall_eq (hlock : a.lock = true) :
    configRemoveCall a s id =
      if isInFileFieldCall a s id.pacos.name ≠ 0 then
        (deleteLineCall a s (isInFileFieldCall a s id.pacos.name)).map fun q => (OK, q.2)
      else some (ERROR, s) := by
  have herror : okOf ERROR = ERROR := rfl
  rw [configRemoveCall, if_pos hlock, removePacosCall_eq]
  split
  · rw [Option.map_map]
    simp only [Function.comp_def, okOf_ofBOOL]
  · rw [Option.map_some, herror]

/-- The line of a key is found in a file that can be read and has one. -/
theorem isInFileFieldCall_eq (hread : (f.readable && a.openRead) = true) :
    isInFileFieldCall a (some f) str = isInFileField f.bytes str := by
  rw [isInFileFieldCall]
  exact if_pos hread

theorem isInFileField_ne_zero_iff {file : List UInt8} :
    isInFileField file str ≠ 0 ↔ HasLine file str := by
  rcases find_line str (fileLines file) with hnone | ⟨pre, line, post, hsplit, hpre, hline⟩
  · refine ⟨fun h => absurd (isInFileField_of_none hnone) h, ?_⟩
    rintro ⟨line, hline, hkey⟩
    exact absurd hkey (hnone line hline)
  · rw [isInFileField_of_line hsplit hpre hline]
    refine ⟨fun _ => ⟨line, ?_, hline⟩, fun _ => Nat.succ_ne_zero _⟩
    rw [hsplit]
    exact List.mem_append_right _ List.mem_cons_self

/-- With the system on its side, `config_get` returns what a file that can be read has. -/
theorem configGetCall_succeed (hread : f.readable = true) (bytes : List UInt8) :
    configGetCall .succeed (some { f with bytes := bytes }) id = getPacos bytes id.pacos := by
  have hlock : FileAnswers.succeed.lock = true := rfl
  have hopen : ({ f with bytes := bytes }.readable && FileAnswers.succeed.openRead) = true := by
    rw [hread]
    rfl
  rw [configGetCall, if_pos hlock, (find_cfgPacos id).1]
  dsimp only
  rw [isInFileFieldCall_eq hopen]
  split
  · rfl
  · next hnot => rw [getPacos, if_neg hnot]

/-! ## The change of a line -/

/-- The answers with which a line of a file is changed, or the copy never ends. -/
def CallsSucceed (a : FileAnswers) (f : DiskFile) : Prop :=
  a.copy = .notRead ∨ a.copy = .copied ∧ a.openTmp = true ∧ f.writable = true ∧
    a.truncate = true ∧ a.openAppend = true

theorem truncate_of_callsSucceed (h : CallsSucceed a f) (hcopied : a.copy = .copied) :
    a.truncate = true := by
  rcases h with hcopy | ⟨-, -, -, htrunc, -⟩
  · cases hcopied.symm.trans hcopy
  · exact htrunc

/-- The bytes of a file after a change. Those of the line and of the lines behind it are still
there if `truncate` failed. -/
theorem changeLineCall_cases (a : FileAnswers) (new : List UInt8)
    (hsplit : fileLines f.bytes = pre ++ line :: post) :
    a.copy = .notRead ∧ changeLineCall a (some f) new (pre.length + 1) = none ∨
      (∃ s', changeLineCall a (some f) new (pre.length + 1) = some (false, s')) ∧
        ¬CallsSucceed a f ∨
      (a.copy = .copied ∧ a.openTmp = true ∧ f.writable = true ∧ a.openAppend = true) ∧
        changeLineCall a (some f) new (pre.length + 1) = some (true, some { f with
          bytes := (if a.truncate then pre.flatten else f.bytes) ++ new ++
            (post.map printed).flatten }) := by
  obtain ⟨hflat, hkept, hstream⟩ := parts_of_fileLines hsplit
  have htake : f.bytes.take pre.flatten.length = pre.flatten := by
    rw [hflat, List.take_left]
  rcases hcopy : a.copy
  case notRead =>
    refine .inl ⟨rfl, ?_⟩
    rw [changeLineCall, hcopy]
    rfl
  case notOpened =>
    refine .inr (.inl ⟨⟨some f, ?_⟩, by simp [CallsSucceed, hcopy]⟩)
    rw [changeLineCall, hcopy]
    rfl
  case notWritten =>
    refine .inr (.inl ⟨⟨some f, ?_⟩, by simp [CallsSucceed, hcopy]⟩)
    rw [changeLineCall, hcopy]
    rfl
  case copied =>
    have hcall : changeLineCall a (some f) new (pre.length + 1) =
        if a.openTmp then some ((changeLine a f new (pre.length + 1)).1,
          some (changeLine a f new (pre.length + 1)).2) else some (false, some f) := by
      rw [changeLineCall, hcopy]
      rfl
    by_cases htmp : a.openTmp = true
    · rw [if_pos htmp] at hcall
      by_cases happend : (f.writable && a.openAppend) = true
      · -- the file is appended to, whatever `truncate` did
        obtain ⟨hwrite, hopen⟩ := Bool.and_eq_true_iff.mp happend
        refine .inr (.inr ⟨⟨rfl, htmp, hwrite, hopen⟩, ?_⟩)
        rw [hcall, changeLine, if_pos happend, hkept, htake, hstream, hwrite, Bool.true_and]
      · have hfalse : (changeLine a f new (pre.length + 1)).1 = false := by
          rw [changeLine, if_neg happend]
        refine .inr (.inl ⟨⟨some (changeLine a f new (pre.length + 1)).2, ?_⟩, ?_⟩)
        · rw [hcall, hfalse]
        · rintro (hread | ⟨-, -, hwrite, -, hopen⟩)
          · cases hcopy.symm.trans hread
          · exact happend (Bool.and_eq_true_iff.mpr ⟨hwrite, hopen⟩)
    · refine .inr (.inl ⟨⟨some f, ?_⟩, by simp [CallsSucceed, hcopy, htmp]⟩)
      rw [hcall, if_neg htmp]

end Calls

/-! ## What is read afterwards -/

section Values

variable {file rest v t : List UInt8} {id : ConfigType} {line : List UInt8}
  {pre post : List (List UInt8)}

/-- The line of a value fits the buffer it is written to. -/
def FitsBuffer (id : ConfigType) (v : List UInt8) : Prop :=
  id.pacos.name.length + 1 + v.length < LINE_BUF_LEN

/-- The value of the first line with its key. -/
theorem getPacos_setting (hv : PlainValue v) (hfits : FitsBuffer id v)
    (hpre : ∀ l ∈ pre, ¬LineHasKey id.pacos.name l)
    (h : entries file =
      (pre ++ (id.pacos.name ++ 32 :: v ++ [LF]) :: post).filterMap lineContent) :
    getPacos file id.pacos = some v := by
  obtain ⟨t, hcontent, hfield, hvalue⟩ := setting_entry (name_isKey id) hv hfits
  rw [getPacos_eq, h, find_entry_of_line hpre hcontent (decide_eq_true hfield)]
  exact congrArg some hvalue

/-- A value whose line fills a buffer. -/
def longValue (id : ConfigType) (c : UInt8) : List UInt8 :=
  List.replicate (LINE_BUF_LEN - 3 - id.pacos.name.length) 120 ++ [c]

theorem mem_longValue {b c : UInt8} (h : b ∈ longValue id c) : b = 120 ∨ b = c := by
  rcases List.mem_append.mp h with h | h
  · exact .inl (List.eq_of_mem_replicate h)
  · exact .inr (List.mem_singleton.mp h)

theorem plainValue_longValue {c : UInt8} (heol : isEOL c = false) (hspace : isSpace c = false) :
    PlainValue (longValue id c) := by
  have hall : ∀ b ∈ longValue id c, isEOL b = false ∧ isSpace b = false := by
    intro b hb
    rcases mem_longValue hb with rfl | rfl
    · exact ⟨rfl, rfl⟩
    · exact ⟨heol, hspace⟩
  exact ⟨fun b hb => (hall b hb).1, fun b hb => (hall b (List.mem_of_head? hb)).2,
    fun b hb => (hall b (List.mem_of_getLast? hb)).2⟩

/-- The bytes of its line. -/
theorem length_longLine (id : ConfigType) (c : UInt8) :
    (id.pacos.name ++ 32 :: longValue id c).length = LINE_BUF_LEN - 1 := by
  have hlen := (name_isWord id).2.2.2.1
  have hbuf : LINE_BUF_LEN = 8192 := rfl
  simp only [longValue, List.length_append, List.length_cons, List.length_replicate,
    List.length_nil]
  omega

theorem fitsBuffer_longValue (id : ConfigType) (c : UInt8) : FitsBuffer id (longValue id c) := by
  have hlen := length_longLine id c
  have hbuf : LINE_BUF_LEN = 8192 := rfl
  rw [List.length_append, List.length_cons] at hlen
  rw [FitsBuffer]
  omega

/-- Long lines differ in their last bytes only. -/
theorem take_longLine (id : ConfigType) (c d : UInt8) {k : ℕ} (hk : k < LINE_BUF_LEN - 1) :
    (id.pacos.name ++ 32 :: longValue id c).take k =
      (id.pacos.name ++ 32 :: longValue id d).take k := by
  have hcut : ∀ b, (id.pacos.name ++ 32 :: longValue id b).take k =
      (id.pacos.name ++ 32 :: List.replicate (LINE_BUF_LEN - 3 - id.pacos.name.length) 120).take
        k := by
    intro b
    have hassoc : id.pacos.name ++ 32 :: longValue id b = (id.pacos.name ++
        32 :: List.replicate (LINE_BUF_LEN - 3 - id.pacos.name.length) 120) ++ [b] := by
      simp only [longValue, List.append_assoc, List.cons_append]
    have hlen := length_longLine id b
    rw [hassoc, List.length_append, List.length_singleton] at hlen
    rw [hassoc, List.take_append_of_le_length (by omega)]
  rw [hcut c, hcut d]

/-- What becomes of a long line behind a last line that has no end: the part that fits the buffer
is added to that line, and there is no key in the rest. -/
theorem find_append_open (hsplit : fileLines file = pre ++ [line])
    (hlen : line.length < LINE_BUF_LEN - 1) (hlf : LF ∉ line) {c : UInt8} (heol : isEOL c = false)
    (hspace : isSpace c = false) (hscore : c ≠ 95) :
    (entries (file ++ (id.pacos.name ++ 32 :: longValue id c ++ LF :: rest))).find?
        (hasKey id.pacos.name) =
      ((pre ++ [line ++ (id.pacos.name ++ 32 :: longValue id 120).take
        (LINE_BUF_LEN - 1 - line.length)] ++ fileLines rest).filterMap lineContent).find?
          (hasKey id.pacos.name) := by
  have hmem : line ∈ fileLines file := hsplit ▸ List.mem_append_right _ List.mem_cons_self
  have hpos := List.length_pos_iff.mpr (ne_nil_of_mem_fileLines line hmem)
  have hv : PlainValue (longValue id c) := plainValue_longValue heol hspace
  have hnot : LF ∉ id.pacos.name ++ 32 :: longValue id c := lf_notMem_setting (name_isKey id) hv
  have htake := take_longLine id 120 c (k := LINE_BUF_LEN - 1 - line.length) (by omega)
  generalize hk : LINE_BUF_LEN - 1 - line.length = k at htake ⊢
  have hroom : LINE_BUF_LEN - 1 = line.length + k := by omega
  -- the rest of the new line is no setting of its own
  have hfree : ¬LineHasKey id.pacos.name
      ((id.pacos.name ++ 32 :: longValue id c).drop k ++ [LF]) := by
    refine not_lineHasKey_drop (name_isKey id) hv (fitsBuffer_longValue id c)
      (score_mem_name id) ?_ (by omega)
    intro hb
    rcases List.mem_append.mp hb with hb | hb
    · rcases List.mem_cons.mp hb with heq | hb
      · exact absurd heq (by decide)
      · rcases mem_longValue hb with heq | heq
        · exact absurd heq (by decide)
        · exact hscore heq.symm
    · exact absurd (List.mem_singleton.mp hb) (by decide)
  have hlong := length_longLine id c
  generalize id.pacos.name ++ 32 :: longValue id c = e at *
  have hboth : LF ∉ line ++ e := by
    rw [List.mem_append, not_or]
    exact ⟨hlf, hnot⟩
  have hrest : (e.drop k).length < LINE_BUF_LEN - 1 := by
    rw [List.length_drop]
    omega
  have hlines : fileLines (file ++ (e ++ LF :: rest)) =
      pre ++ (line ++ e.take k) :: (e.drop k ++ [LF]) :: fileLines rest := by
    rw [(getLast?_of_fileLines hsplit).1, List.append_assoc, ← List.append_assoc line]
    show lines _ _ _ = _
    rw [lines_prefix_append hsplit (by simp),
      lines_append_lf_of_le hboth (by omega) (by rw [List.length_append]; omega), hroom,
      List.take_length_add_append, List.drop_length_add_append, ← hroom]
    exact congrArg (fun ls => pre ++ (line ++ e.take k) :: ls)
      (fileLines_line (fun h => hnot (List.mem_of_mem_drop h)) hrest rest)
  have hskip : ([e.drop k ++ [LF]].filterMap lineContent).find? (hasKey id.pacos.name) = none :=
    find_entry_of_none (List.forall_mem_singleton.mpr hfree)
  have hparts : pre ++ (line ++ e.take k) :: (e.drop k ++ [LF]) :: fileLines rest =
      (pre ++ [line ++ e.take k]) ++ ([e.drop k ++ [LF]] ++ fileLines rest) := by simp
  rw [entries, hlines, hparts, htake]
  simp only [List.filterMap_append, List.find?_append, hskip, Option.none_or]

/-- What is got for a key that a file has a line for does not depend on the long value that is
added behind it. -/
theorem getPacos_append_long (h : HasLine file id.pacos.name) (rest : List UInt8) :
    ∃ r, ∀ c, isEOL c = false → isSpace c = false → c ≠ 95 →
      getPacos (file ++ (id.pacos.name ++ 32 :: longValue id c ++ LF :: rest)) id.pacos = r := by
  obtain ⟨pre, line, post, hsplit, hpre, hline⟩ :=
    (find_line id.pacos.name (fileLines file)).resolve_left fun hnone => by
      obtain ⟨line, hline, hkey⟩ := h
      exact hnone line hline hkey
  obtain ⟨t, hcontent, hkey⟩ := lineHasKey_iff.mp hline
  by_cases hend : post ≠ [] ∨ line.length = LINE_BUF_LEN - 1 ∨ LF ∈ line
  · -- the line of the key stays as it is
    refine ⟨some (vgetw t LINE_BUF_LEN), fun c _ _ _ => ?_⟩
    obtain ⟨ls, hls⟩ := exists_lines_append (by decide) hsplit hend
      (id.pacos.name ++ 32 :: longValue id c ++ LF :: rest)
    have hlines : fileLines _ = pre ++ line :: ls := hls
    rw [getPacos_eq, entries, hlines, find_entry_of_line hpre hcontent hkey]
    rfl
  · simp only [not_or, not_not] at hend
    obtain ⟨rfl, hlen, hlf⟩ := hend
    have hmem : line ∈ fileLines file := hsplit ▸ List.mem_append_right _ List.mem_cons_self
    have hmax : line.length ≤ LINE_BUF_LEN - 1 :=
      (length_lines_le (by decide) le_rfl).2 line hmem
    refine ⟨some ((((pre ++ [line ++ (id.pacos.name ++ 32 :: longValue id 120).take
      (LINE_BUF_LEN - 1 - line.length)] ++ fileLines rest).filterMap lineContent).find?
        (hasKey id.pacos.name)).elim id.pacos.defaultVal fun t => vgetw t LINE_BUF_LEN),
      fun c heol hspace hscore => ?_⟩
    rw [getPacos_eq, find_append_open hsplit (lt_of_le_of_ne hmax hlen) hlf heol hspace hscore]

/-- A file in which the line of a key is still there in front of what is added does not have
every value. -/
theorem not_getPacos_append (h : HasLine file id.pacos.name) (rest : List UInt8) :
    ¬∀ v, PlainValue v → FitsBuffer id v →
      getPacos (file ++ (id.pacos.name ++ 32 :: v ++ LF :: rest)) id.pacos = some v := by
  intro hall
  obtain ⟨r, hr⟩ := getPacos_append_long h rest
  have hget : ∀ c, isEOL c = false → isSpace c = false → c ≠ 95 → r = some (longValue id c) :=
    fun c heol hspace hscore => (hr c heol hspace hscore).symm.trans
      (hall _ (plainValue_longValue heol hspace) (fitsBuffer_longValue id c))
  have heq := (hget 120 rfl rfl (by decide)).symm.trans (hget 121 rfl rfl (by decide))
  have hlast : [(120 : UInt8)] = [121] := List.append_cancel_left (Option.some.inj heq)
  exact absurd hlast (by decide)

theorem hasLine_iff {str : List UInt8} :
    HasLine file str ↔ ∃ t ∈ entries file, hasKey str t = true := by
  constructor
  · rintro ⟨line, hline, hkey⟩
    obtain ⟨t, hcontent, hkey⟩ := lineHasKey_iff.mp hkey
    exact ⟨t, List.mem_filterMap.mpr ⟨line, hline, hcontent⟩, hkey⟩
  · rintro ⟨t, ht, hkey⟩
    obtain ⟨line, hline, hcontent⟩ := List.mem_filterMap.mp ht
    exact ⟨line, hline, lineHasKey_iff.mpr ⟨t, hcontent, hkey⟩⟩

/-- A line is appended to the file, or to the file with a line feed at its end. -/
theorem exists_appendLine (file : List UInt8) :
    ∃ bs, entries bs = entries file ∧ ∀ e, appendLine file e = bs ++ (e ++ LF :: []) := by
  rcases hlast : file.getLast? with _ | c
  · refine ⟨file ++ [LF], entries_concat_lf file, fun e => ?_⟩
    rw [appendLine, hlast]
  · by_cases heol : isEOL c = true
    · refine ⟨file, rfl, fun e => ?_⟩
      rw [appendLine, hlast]
      exact if_pos heol
    · refine ⟨file ++ [LF], entries_concat_lf file, fun e => ?_⟩
      rw [appendLine, hlast]
      exact if_neg heol

theorem fitsBuffer_x (id : ConfigType) : FitsBuffer id (ascii "x") := by
  have hlen := (name_isWord id).2.2.2.1
  have hbuf : LINE_BUF_LEN = 8192 := rfl
  have hone : (ascii "x").length = 1 := rfl
  rw [FitsBuffer]
  omega

/-- Every value can be appended for a key, and is got again, if no line has it and the new line
does not become part of the last one. -/
theorem getPacos_appendLine_iff :
    (∀ v, PlainValue v → FitsBuffer id v →
      getPacos (appendLine file (id.pacos.name ++ 32 :: v)) id.pacos = some v) ↔
      ¬HasLine file id.pacos.name ∧ ¬Glues file := by
  obtain ⟨-, -, -, hword, hdefault⟩ := name_isWord id
  have hbuf : LINE_BUF_LEN = 8192 := rfl
  constructor
  · intro hall
    have hfree : ¬HasLine file id.pacos.name := by
      intro hhas
      obtain ⟨bs, hentries, happend⟩ := exists_appendLine file
      rw [hasLine_iff, ← hentries, ← hasLine_iff] at hhas
      refine not_getPacos_append hhas [] fun v hv hfits => ?_
      rw [← happend]
      exact hall v hv hfits
    refine ⟨hfree, fun hglue => ?_⟩
    have hnone := not_hasLine_appendLine (name_isKey id) (by omega) (score_mem_name id)
      (fun line hline hkey => hfree ⟨line, hline, hkey⟩) hglue
    have hget := hall _ plainValue_x (fitsBuffer_x id)
    rw [getPacos_eq, entries, find_entry_of_none hnone] at hget
    exact hdefault (Option.some.inj hget)
  · rintro ⟨hfree, hglue⟩ v hv hfits
    have hlt : id.pacos.name.length + 1 + v.length < LINE_BUF_LEN := hfits
    have hlen : (id.pacos.name ++ 32 :: v).length < LINE_BUF_LEN := by
      rw [List.length_append, List.length_cons]
      omega
    exact getPacos_setting hv hfits (fun line hline hkey => hfree ⟨line, hline, hkey⟩)
      (entries_appendLine hglue (lf_notMem_setting (name_isKey id) hv) hlen)

end Values

/-! ## The reports -/

/-- `config_set` reports what becomes of a value. -/
structure SetReported (a : FileAnswers) (s : Option DiskFile) (id : ConfigType)
    (v : List UInt8) : Prop where
  stored : ∀ s', configSetCall a s id v = some (OK, s') → configGetCall .succeed s' id = some v
  /-- A `false` of `ReplaceLine` or `AppendLine` is not `OK`. -/
  passed : ∀ s', setPacosCall a s v id.pacos = some (false, s') →
    ∀ r, configSetCall a s id v = some r → r.1 ≠ OK

/-- The first line with a key is not there any more. -/
def FirstLineDeleted (str : List UInt8) (s s' : Option DiskFile) : Prop :=
  ∃ f f' pre line post, s = some f ∧ s' = some f' ∧ fileLines f.bytes = pre ++ line :: post ∧
    (∀ l ∈ pre, ¬LineHasKey str l) ∧ LineHasKey str line ∧
    f'.bytes = pre.flatten ++ (post.map printed).flatten

/-- `config_remove` reports what becomes of a key. -/
structure RemoveReported (a : FileAnswers) (s : Option DiskFile) (id : ConfigType) : Prop where
  deleted : ∀ s', configRemoveCall a s id = some (OK, s') →
    FirstLineDeleted id.pacos.name s s'
  /-- A `false` of `DeleteLine` is not `OK`. -/
  passed : isInFileFieldCall a s id.pacos.name ≠ 0 →
    ∀ s', deleteLineCall a s (isInFileFieldCall a s id.pacos.name) = some (false, s') →
      ∀ r, configRemoveCall a s id = some r → r.1 ≠ OK

/-- A line of the key is found. -/
def KeyFound (a : FileAnswers) (f : DiskFile) (id : ConfigType) : Prop :=
  f.readable = true ∧ a.openRead = true ∧ HasLine f.bytes id.pacos.name

/-- `config_set` fails at the lock, or it changes a line and nothing fails on the way, or it
appends one to a file that has none. -/
def SetSafe (a : FileAnswers) (s : Option DiskFile) (id : ConfigType) : Prop :=
  a.lock = false ∨ ∃ f, s = some f ∧
    (KeyFound a f id ∧ CallsSucceed a f ∨
      (f.readable = true ∧ f.writable = true ∧ a.openUpdate = true) ∧
        ¬HasLine f.bytes id.pacos.name ∧ ¬Glues f.bytes)

/-- `config_remove` fails at the lock, or it finds no line, or nothing fails on the way. -/
def RemoveSafe (a : FileAnswers) (s : Option DiskFile) (id : ConfigType) : Prop :=
  a.lock = false ∨ ∀ f, s = some f → KeyFound a f id → CallsSucceed a f

section Reports

variable {a : FileAnswers} {s : Option DiskFile} {f : DiskFile} {id : ConfigType}
  {line v : List UInt8} {pre post : List (List UInt8)}

theorem isInFileFieldCall_ne_zero_iff :
    isInFileFieldCall a s id.pacos.name ≠ 0 ↔ ∃ f, s = some f ∧ KeyFound a f id := by
  cases s with
  | none =>
    refine ⟨fun h => absurd rfl h, ?_⟩
    rintro ⟨f, hf, -⟩
    cases hf
  | some f =>
    by_cases hread : (f.readable && a.openRead) = true
    · obtain ⟨hreadable, hopen⟩ := Bool.and_eq_true_iff.mp hread
      rw [isInFileFieldCall_eq hread, isInFileField_ne_zero_iff]
      refine ⟨fun h => ⟨f, rfl, hreadable, hopen, h⟩, ?_⟩
      rintro ⟨f', hf, -, -, h⟩
      rwa [Option.some.inj hf]
    · rw [isInFileFieldCall, if_neg hread]
      refine ⟨fun h => absurd rfl h, ?_⟩
      rintro ⟨f', hf, hreadable, hopen, -⟩
      rw [← Option.some.inj hf] at hreadable
      exact absurd (Bool.and_eq_true_iff.mpr ⟨hreadable, hopen⟩) hread

/-- The line that is found. -/
theorem KeyFound.exists_line (h : KeyFound a f id) :
    ∃ pre line post, fileLines f.bytes = pre ++ line :: post ∧
      (∀ l ∈ pre, ¬LineHasKey id.pacos.name l) ∧ LineHasKey id.pacos.name line ∧
      isInFileFieldCall a (some f) id.pacos.name = pre.length + 1 := by
  obtain ⟨hread, hopen, line, hline, hkey⟩ := h
  obtain ⟨pre, line, post, hsplit, hpre, hline⟩ :=
    (find_line id.pacos.name (fileLines f.bytes)).resolve_left fun hnone => hnone line hline hkey
  refine ⟨pre, line, post, hsplit, hpre, hline, ?_⟩
  rw [isInFileFieldCall_eq (Bool.and_eq_true_iff.mpr ⟨hread, hopen⟩),
    isInFileField_of_line hsplit hpre hline]

/-- Since every end of the line functions is an `OK`, there must be no `false`, and each `true`
must be right. -/
theorem setReported_iff_of_lock (hlock : a.lock = true) :
    SetReported a s id v ↔ ∀ b s', setPacosCall a s v id.pacos = some (b, s') →
      b = true ∧ configGetCall .succeed s' id = some v := by
  have hcall : configSetCall a s id v = (setPacosCall a s v id.pacos).map fun q => (OK, q.2) :=
    configSetCall_eq hlock
  constructor
  · rintro ⟨hstored, hpassed⟩ b s' hset
    rw [hset, Option.map_some] at hcall
    refine ⟨?_, hstored s' hcall⟩
    by_contra hb
    rw [Bool.not_eq_true] at hb
    exact hpassed s' (hb ▸ hset) _ hcall rfl
  · intro h
    refine ⟨fun s' hok => ?_, fun s' hset => ?_⟩
    · rw [hcall] at hok
      obtain ⟨⟨b, s''⟩, hset, heq⟩ := Option.map_eq_some_iff.mp hok
      cases heq
      exact (h b s'' hset).2
    · exact absurd (h false s' hset).1 Bool.false_ne_true

/-- A line is changed for the key. -/
theorem setPacosCall_of_line
    (hln : isInFileFieldCall a (some f) id.pacos.name = pre.length + 1) :
    setPacosCall a (some f) v id.pacos =
      changeLineCall a (some f) (id.pacos.name ++ 32 :: v ++ [LF]) (pre.length + 1) := by
  have hne : pre.length + 1 ≠ 0 := Nat.succ_ne_zero _
  rw [setPacosCall, hln]
  exact if_pos hne

/-- The file that was changed has the value. -/
theorem getPacos_changed (hv : PlainValue v) (hfits : FitsBuffer id v)
    (hsplit : fileLines f.bytes = pre ++ line :: post)
    (hpre : ∀ l ∈ pre, ¬LineHasKey id.pacos.name l) (rest : List UInt8) :
    getPacos (pre.flatten ++ (id.pacos.name ++ 32 :: v ++ [LF]) ++ rest) id.pacos = some v := by
  have hlf := lf_notMem_setting (name_isKey id) hv
  have hlen : (id.pacos.name ++ 32 :: v).length < LINE_BUF_LEN := by
    have hlt : id.pacos.name.length + 1 + v.length < LINE_BUF_LEN := hfits
    rw [List.length_append, List.length_cons]
    omega
  have hassoc : pre.flatten ++ (id.pacos.name ++ 32 :: v ++ [LF]) ++ rest =
      pre.flatten ++ (id.pacos.name ++ 32 :: v ++ LF :: rest) := by
    simp only [List.append_assoc, List.cons_append, List.nil_append]
  have hlines : fileLines (pre.flatten ++ (id.pacos.name ++ 32 :: v ++ LF :: rest)) =
      pre ++ fileLines (id.pacos.name ++ 32 :: v ++ LF :: rest) :=
    lines_prefix_append hsplit (by simp) _
  have hline := entries_line hlf hlen rest
  rw [entries] at hline
  have hentries : entries (pre.flatten ++ (id.pacos.name ++ 32 :: v ++ [LF]) ++ rest) =
      (pre ++ (id.pacos.name ++ 32 :: v ++ [LF]) :: fileLines rest).filterMap lineContent := by
    rw [hassoc, entries, hlines, List.filterMap_append, hline, entries, ← List.filterMap_append,
      ← List.filterMap_append]
    rfl
  exact getPacos_setting hv hfits hpre hentries

/-- With a line for the key. -/
theorem setReported_iff_of_found (hlock : a.lock = true) (h : KeyFound a f id) :
    (∀ v, PlainValue v → FitsBuffer id v → SetReported a (some f) id v) ↔ CallsSucceed a f := by
  obtain ⟨pre, line, post, hsplit, hpre, hline, hln⟩ := h.exists_line
  have hcases := fun v => changeLineCall_cases a (id.pacos.name ++ 32 :: v ++ [LF]) hsplit
  constructor
  · intro hall
    have hget : ∀ v, PlainValue v → FitsBuffer id v → ∀ b s',
        changeLineCall a (some f) (id.pacos.name ++ 32 :: v ++ [LF]) (pre.length + 1) =
          some (b, s') → b = true ∧ configGetCall .succeed s' id = some v := by
      intro v hv hfits b s' hcall
      rw [← setPacosCall_of_line hln] at hcall
      exact (setReported_iff_of_lock hlock).mp (hall v hv hfits) b s' hcall
    by_contra hnot
    have htrunc : a.truncate = true → a.copy = .copied ∧ a.openTmp = true ∧ f.writable = true ∧
        a.openAppend = true → False := fun ht hc =>
      hnot (.inr ⟨hc.1, hc.2.1, hc.2.2.1, ht, hc.2.2.2⟩)
    -- the line of the key is still there, in front of what is written
    refine not_getPacos_append h.2.2 (post.map printed).flatten fun v hv hfits => ?_
    rcases hcases v with ⟨hcopy, -⟩ | ⟨⟨s', hfalse⟩, -⟩ | ⟨hopened, hcall⟩
    · exact absurd (.inl hcopy) hnot
    · exact absurd (hget v hv hfits false s' hfalse).1 Bool.false_ne_true
    · have hgot := (hget v hv hfits _ _ hcall).2
      rw [if_neg fun ht => htrunc ht hopened, configGetCall_succeed h.1] at hgot
      simpa only [List.append_assoc, List.cons_append, List.nil_append] using hgot
  · intro hsucceed v hv hfits
    rw [setReported_iff_of_lock hlock, setPacosCall_of_line hln]
    intro b s' hcall
    rcases hcases v with ⟨-, hnone⟩ | ⟨-, hnot⟩ | ⟨⟨hcopied, -⟩, htrue⟩
    · cases hnone.symm.trans hcall
    · exact absurd hsucceed hnot
    · have htrunc := truncate_of_callsSucceed hsucceed hcopied
      cases htrue.symm.trans hcall
      refine ⟨rfl, ?_⟩
      rw [if_pos htrunc, configGetCall_succeed h.1]
      exact getPacos_changed hv hfits hsplit hpre _

/-- Without one, a line is added. -/
theorem setReported_iff_of_not_found (hlock : a.lock = true)
    (hnot : ∀ f, s = some f → ¬KeyFound a f id) :
    (∀ v, PlainValue v → FitsBuffer id v → SetReported a s id v) ↔
      ∃ f, s = some f ∧ (f.readable = true ∧ f.writable = true ∧ a.openUpdate = true) ∧
        ¬HasLine f.bytes id.pacos.name ∧ ¬Glues f.bytes := by
  have hline : isInFileFieldCall a s id.pacos.name = 0 := by
    by_contra hne
    obtain ⟨f, hf, hfound⟩ := isInFileFieldCall_ne_zero_iff.mp hne
    exact hnot f hf hfound
  have hset : ∀ v, setPacosCall a s v id.pacos =
      some (appendLineCall a s (id.pacos.name ++ 32 :: v)) := by
    intro v
    rw [setPacosCall, hline]
    rfl
  have hreports : ∀ v, SetReported a s id v ↔
      (appendLineCall a s (id.pacos.name ++ 32 :: v)).1 = true ∧
        configGetCall .succeed (appendLineCall a s (id.pacos.name ++ 32 :: v)).2 id = some v := by
    intro v
    rw [setReported_iff_of_lock hlock, hset v]
    refine ⟨fun h => h _ _ rfl, fun h b s' heq => ?_⟩
    have hpair := Option.some.inj heq
    rw [hpair] at h
    exact h
  cases s with
  | none =>
    -- `file_append_line` makes no file
    refine ⟨fun hall => ?_, ?_⟩
    · exact absurd ((hreports _).mp (hall _ plainValue_x (fitsBuffer_x id))).1 Bool.false_ne_true
    · rintro ⟨f, hf, -⟩
      cases hf
  | some f =>
    by_cases hopen : (f.readable && f.writable && a.openUpdate) = true
    · obtain ⟨⟨hread, hwrite⟩, hupdate⟩ : (f.readable = true ∧ f.writable = true) ∧
          a.openUpdate = true := by simpa only [Bool.and_eq_true] using hopen
      have happend : ∀ v, SetReported a (some f) id v ↔
          getPacos (appendLine f.bytes (id.pacos.name ++ 32 :: v)) id.pacos = some v := by
        intro v
        have hcall : appendLineCall a (some f) (id.pacos.name ++ 32 :: v) =
            (true, some { f with bytes := appendLine f.bytes (id.pacos.name ++ 32 :: v) }) :=
          if_pos hopen
        rw [hreports v, hcall, configGetCall_succeed hread]
        exact ⟨fun h => h.2, fun h => ⟨rfl, h⟩⟩
      constructor
      · intro hall
        exact ⟨f, rfl, ⟨hread, hwrite, hupdate⟩, getPacos_appendLine_iff.mp
          fun v hv hfits => (happend v).mp (hall v hv hfits)⟩
      · rintro ⟨f', hf, -, hfree⟩ v hv hfits
        cases hf
        exact (happend v).mpr (getPacos_appendLine_iff.mpr hfree v hv hfits)
    · refine ⟨fun hall => ?_, ?_⟩
      · have hfalse : (appendLineCall a (some f) (id.pacos.name ++ 32 :: ascii "x")).1 = false := by
          rw [appendLineCall, if_neg hopen]
        exact absurd (hfalse.symm.trans ((hreports _).mp (hall _ plainValue_x (fitsBuffer_x id))).1)
          Bool.false_ne_true
      · rintro ⟨f', hf, ⟨hread, hwrite, hupdate⟩, -⟩
        cases hf
        exact absurd (by rw [hread, hwrite, hupdate]; rfl) hopen

theorem setReported_iff :
    (∀ v, PlainValue v → FitsBuffer id v → SetReported a s id v) ↔ SetSafe a s id := by
  by_cases hlock : a.lock = true
  · have hopen : SetSafe a s id ↔ ∃ f, s = some f ∧ (KeyFound a f id ∧ CallsSucceed a f ∨
        (f.readable = true ∧ f.writable = true ∧ a.openUpdate = true) ∧
          ¬HasLine f.bytes id.pacos.name ∧ ¬Glues f.bytes) := by
      rw [SetSafe, hlock]
      simp only [Bool.true_eq_false, false_or]
    rw [hopen]
    by_cases hfound : ∃ f, s = some f ∧ KeyFound a f id
    · obtain ⟨f, rfl, hkey⟩ := hfound
      rw [setReported_iff_of_found hlock hkey]
      refine ⟨fun h => ⟨f, rfl, .inl ⟨hkey, h⟩⟩, ?_⟩
      rintro ⟨f', hf, ⟨-, hsucceed⟩ | ⟨-, hfree, -⟩⟩
      · rwa [Option.some.inj hf]
      · rw [← Option.some.inj hf] at hfree
        exact absurd hkey.2.2 hfree
    · have hnot : ∀ f, s = some f → ¬KeyFound a f id := fun f hf hkey => hfound ⟨f, hf, hkey⟩
      rw [setReported_iff_of_not_found hlock hnot]
      refine exists_congr fun f => and_congr_right fun hf => ?_
      exact ⟨.inr, fun h => h.resolve_left fun hkey => hnot f hf hkey.1⟩
  · -- nothing is done without the lock
    rw [Bool.not_eq_true] at hlock
    have hcall : ∀ v, configSetCall a s id v = some (ERROR, s) := by
      intro v
      rw [configSetCall, hlock]
      rfl
    have hne : ERROR ≠ OK := by decide
    refine ⟨fun _ => .inl hlock, fun _ v _ _ => ⟨fun s' hok => ?_, fun s' _ r hr => ?_⟩⟩
    · rw [hcall v] at hok
      exact absurd (congrArg Prod.fst (Option.some.inj hok)) hne
    · rw [← Option.some.inj ((hcall v).symm.trans hr)]
      exact hne

/-- The lines that are printed are not longer. -/
theorem length_map_printed_le (ls : List (List UInt8)) :
    (ls.map printed).flatten.length ≤ ls.flatten.length := by
  induction ls with
  | nil => exact le_rfl
  | cons l ls ih =>
    have hle : (printed l).length ≤ l.length := (List.takeWhile_sublist _).length_le
    rw [List.map_cons, List.flatten_cons, List.flatten_cons, List.length_append,
      List.length_append]
    exact Nat.add_le_add hle ih

/-- A file in which a line was deleted does not begin with the bytes it had. -/
theorem not_firstLineDeleted {str : List UInt8} (rest : List UInt8) :
    ¬FirstLineDeleted str (some f) (some { f with bytes := f.bytes ++ rest }) := by
  rintro ⟨f₁, f₂, pre, line, post, hf₁, hf₂, hsplit, -, -, hbytes⟩
  cases hf₁
  cases hf₂
  have hmem : line ∈ fileLines f.bytes := hsplit ▸ List.mem_append_right _ List.mem_cons_self
  have hpos := List.length_pos_iff.mpr (ne_nil_of_mem_fileLines line hmem)
  have hlen := congrArg List.length (parts_of_fileLines hsplit).1
  have hprinted := length_map_printed_le post
  have hlen' := congrArg List.length hbytes
  simp only [List.length_append] at hlen hlen'
  omega

/-- With a line for the key. -/
theorem removeReported_iff_of_found (hlock : a.lock = true) (h : KeyFound a f id) :
    RemoveReported a (some f) id ↔ CallsSucceed a f := by
  obtain ⟨pre, line, post, hsplit, hpre, hline, hln⟩ := h.exists_line
  have hne : pre.length + 1 ≠ 0 := Nat.succ_ne_zero _
  have hcall : configRemoveCall a (some f) id =
      (changeLineCall a (some f) [] (pre.length + 1)).map fun q => (OK, q.2) := by
    rw [configRemoveCall_eq hlock, hln]
    exact if_pos hne
  have hcases := changeLineCall_cases a [] hsplit
  constructor
  · rintro ⟨hdeleted, hpassed⟩
    rw [hln] at hpassed
    rcases hcases with ⟨hcopy, -⟩ | ⟨⟨s', hfalse⟩, -⟩ | ⟨⟨hcopied, htmp, hwrite, hopen⟩, htrue⟩
    · exact .inl hcopy
    · rw [hfalse] at hcall
      exact absurd rfl (hpassed hne s' hfalse _ hcall)
    · by_contra hnot
      have htrunc : a.truncate ≠ true := fun ht =>
        hnot (.inr ⟨hcopied, htmp, hwrite, ht, hopen⟩)
      rw [htrue, if_neg htrunc, List.append_nil] at hcall
      exact not_firstLineDeleted _ (hdeleted _ hcall)
  · intro hsucceed
    rcases hcases with ⟨-, hnone⟩ | ⟨-, hnot⟩ | ⟨⟨hcopied, -⟩, htrue⟩
    · -- a copy that never ends reports nothing
      rw [hnone] at hcall
      refine ⟨fun s' hok => ?_, fun _ s' _ r hr => ?_⟩
      · cases hcall.symm.trans hok
      · cases hcall.symm.trans hr
    · exact absurd hsucceed hnot
    · have htrunc := truncate_of_callsSucceed hsucceed hcopied
      rw [htrue, if_pos htrunc, List.append_nil] at hcall
      refine ⟨fun s' hok => ?_, fun _ s' hfalse => ?_⟩
      · cases hcall.symm.trans hok
        exact ⟨f, _, pre, line, post, rfl, rfl, hsplit, hpre, hline, rfl⟩
      · rw [hln] at hfalse
        cases htrue.symm.trans hfalse

theorem removeReported_iff : RemoveReported a s id ↔ RemoveSafe a s id := by
  have hne : ERROR ≠ OK := by decide
  -- an `ERROR` is right
  have herror : configRemoveCall a s id = some (ERROR, s) → RemoveReported a s id := by
    intro hcall
    refine ⟨fun s' hok => ?_, fun _ s' _ r hr => ?_⟩
    · rw [hcall] at hok
      exact absurd (congrArg Prod.fst (Option.some.inj hok)) hne
    · rw [← Option.some.inj (hcall.symm.trans hr)]
      exact hne
  by_cases hlock : a.lock = true
  · by_cases hfound : ∃ f, s = some f ∧ KeyFound a f id
    · obtain ⟨f, rfl, hkey⟩ := hfound
      rw [removeReported_iff_of_found hlock hkey]
      refine ⟨fun h => .inr fun f' hf _ => ?_, fun h => ?_⟩
      · rwa [← Option.some.inj hf]
      · exact h.resolve_left (by rw [hlock]; decide) f rfl hkey
    · refine ⟨fun _ => .inr fun f hf hkey => absurd ⟨f, hf, hkey⟩ hfound, fun _ => herror ?_⟩
      rw [configRemoveCall_eq hlock]
      exact if_neg fun hline => hfound (isInFileFieldCall_ne_zero_iff.mp hline)
  · rw [Bool.not_eq_true] at hlock
    refine ⟨fun _ => .inl hlock, fun _ => herror ?_⟩
    rw [configRemoveCall, hlock]
    rfl

end Reports

/-! ## Values that are got -/

section Got

variable {file line t v : List UInt8} {id : ConfigType}

/-- Every default is plain. -/
theorem plainValue_default (id : ConfigType) : PlainValue id.pacos.defaultVal := by
  have hall : ∀ p ∈ cfgPacos, p.defaultVal.all (fun c => !isEOL c) = true ∧
      p.defaultVal.head?.all (fun c => !isSpace c) = true ∧
      p.defaultVal.getLast?.all (fun c => !isSpace c) = true := by
    decide +kernel
  obtain ⟨heol, hhead, hlast⟩ := hall _ (mem_cfgPacos id)
  simp only [List.all_eq_true, Option.all_eq_true, Bool.not_eq_true'] at heol hhead hlast
  exact ⟨heol, hhead, hlast⟩

theorem getLast?_of_suffix {bs : List UInt8} (h : t <:+ bs) (hne : t ≠ []) :
    bs.getLast? = t.getLast? := by
  obtain ⟨pre, rfl⟩ := h
  exact List.getLast?_append_of_ne_nil _ hne

/-- What `GetLine` leaves of a line has no end of line in it, and no blank at its end. -/
theorem lineContent_eq_some (h : lineContent line = some t) :
    t.length ≤ line.length ∧ (∀ c ∈ t, isEOL c = false) ∧ ∀ c ∈ t.getLast?, isSpace c = false := by
  rw [lineContent] at h
  split_ifs at h
  extract_lets head content at h
  split_ifs at h with hnil
  obtain rfl := Option.some.inj h
  have hsuffix : content <:+ head.rdropWhile fun c => isSpace c || isEOL c :=
    List.dropWhile_suffix _
  have hfront : head.rdropWhile (fun c => isSpace c || isEOL c) <+: head :=
    List.rdropWhile_prefix _ _
  refine ⟨?_, fun c hc => ?_, fun c hc => ?_⟩
  · exact (hsuffix.length_le.trans hfront.length_le).trans (List.takeWhile_prefix _).length_le
  · have hnot := List.mem_takeWhile_imp (hfront.subset (hsuffix.subset hc))
    rwa [Bool.not_eq_true'] at hnot
  · rw [← getLast?_of_suffix hsuffix hnil] at hc
    have hlast := List.rdropWhile_last_not (fun c => isSpace c || isEOL c) head
      (List.ne_nil_of_mem (List.mem_of_getLast? hc))
    rw [List.getLast?_eq_some_getLast (List.ne_nil_of_mem (List.mem_of_getLast? hc))] at hc
    rw [Option.some.inj hc, Bool.not_eq_true, Bool.or_eq_false_iff] at hlast
    exact hlast.1

/-- The value of an entry is plain. -/
theorem plainValue_vgetw (hlen : t.length ≤ LINE_BUF_LEN - 1) (heol : ∀ c ∈ t, isEOL c = false)
    (hlast : ∀ c ∈ t.getLast?, isSpace c = false) : PlainValue (vgetw t LINE_BUF_LEN) := by
  have hsuffix : (t.dropWhile fun c => !isSep c).dropWhile isSpace <:+ t :=
    (List.dropWhile_suffix _).trans (List.dropWhile_suffix _)
  have hhead := List.head?_dropWhile_not isSpace (t.dropWhile fun c => !isSep c)
  rw [vgetw, List.take_of_length_le (hsuffix.length_le.trans hlen)]
  generalize (t.dropWhile fun c => !isSep c).dropWhile isSpace = value at hsuffix hhead
  refine ⟨fun c hc => heol c (hsuffix.subset hc), fun c hc => ?_, fun c hc => ?_⟩
  · rw [hc] at hhead
    exact hhead
  · rw [← getLast?_of_suffix hsuffix (List.ne_nil_of_mem (List.mem_of_getLast? hc))] at hc
    exact hlast c hc

theorem plainValue_getPacos (h : getPacos file id.pacos = some v) : PlainValue v := by
  rw [getPacos_eq] at h
  obtain rfl := Option.some.inj h
  rcases hfind : (entries file).find? (hasKey id.pacos.name) with _ | t
  · exact plainValue_default id
  · obtain ⟨line, hline, hcontent⟩ := List.mem_filterMap.mp (List.mem_of_find?_eq_some hfind)
    obtain ⟨hlen, heol, hlast⟩ := lineContent_eq_some hcontent
    have hmax : line.length ≤ LINE_BUF_LEN - 1 :=
      (length_lines_le (by decide) le_rfl).2 line hline
    exact plainValue_vgetw (hlen.trans hmax) heol hlast

/-- Every value that `config_get` returns is plain. -/
theorem plainValue_of_configGetCall {a : FileAnswers} {s : Option DiskFile}
    (h : configGetCall a s id = some v) : PlainValue v := by
  rw [configGetCall, (find_cfgPacos id).1] at h
  dsimp only at h
  split_ifs at h
  · obtain ⟨f, -, hget⟩ := Option.bind_eq_some_iff.mp h
    exact plainValue_getPacos hget
  · rw [← Option.some.inj h]
    exact plainValue_default id

end Got

/-- For every file, every answer of the system and every key: `config_set` reports what becomes of
every plain value exactly if it is safe, and so does `config_remove`. Other values are never got,
so an `OK` for them is always wrong. -/
theorem configErrors_iff (a : FileAnswers) (s : Option DiskFile) (id : ConfigType) :
    ((∀ v, PlainValue v → FitsBuffer id v → SetReported a s id v) ↔ SetSafe a s id) ∧
      (RemoveReported a s id ↔ RemoveSafe a s id) ∧
      ∀ a' s' v, configGetCall a' s' id = some v → PlainValue v :=
  ⟨setReported_iff, removeReported_iff, fun _ _ _ => plainValue_of_configGetCall⟩

/-- Errors are not always reported: not if there is no file, even if every call does what it can
do. -/
theorem not_configErrors_absent :
    ¬∀ (a : FileAnswers) (s : Option DiskFile) (id : ConfigType),
      (∀ v, PlainValue v → FitsBuffer id v → SetReported a s id v) ∧ RemoveReported a s id := by
  intro h
  have hset := (h .succeed none .gasIp).1 _ plainValue_x (fitsBuffer_x .gasIp)
  exact hset.passed none rfl (OK, none) rfl rfl

end Gendo
