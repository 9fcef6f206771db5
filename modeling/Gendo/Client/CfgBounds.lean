import Gendo.Client.CfgFile

/-!
# Bounds of the update configuration

Which texts `RopCfgFile::ReadAndInit` reads without a write outside its arrays.

`stretches` are the lines that the two loops read: those of the file, and those of each item.
`readAndInit_safe_iff` says that the arrays hold them if each line of the file leaves room for the
second NUL in `Name` and `Value`, an item has at most 32 lines for `SupportOS`, and its paths fit.
-/

namespace Gendo.Client.Cfg

open BufferedLines Shlwapi

/-- No array is overrun. -/
def Safe {α : Type} (x : Except Buffer α) : Prop := ∃ a, x = .ok a

section

variable {α β : Type} {x : Except Buffer α} {f : α → Except Buffer β} {buf : Buffer} {size n i : ℕ}
  {a : α} {b : β}

theorem bind_eq_ok : (x >>= f) = .ok b ↔ ∃ a, x = .ok a ∧ f a = .ok b := by
  rcases x with e | a
  · simp [bind, Except.bind]
  · simp [bind, Except.bind]

theorem safe_bind : Safe (x >>= f) ↔ ∃ a, x = .ok a ∧ Safe (f a) := by
  simp only [Safe, bind_eq_ok]
  constructor
  · rintro ⟨b, a, hx, hf⟩
    exact ⟨a, hx, b, hf⟩
  · rintro ⟨a, hx, b, hf⟩
    exact ⟨b, a, hx, hf⟩

@[simp]
theorem safe_ok : Safe (.ok a : Except Buffer α) := ⟨a, rfl⟩

@[simp]
theorem fill_eq_ok {u : Unit} : fill buf size n = .ok u ↔ n ≤ size := by
  rw [fill]
  split_ifs with h
  · simp [h]
  · simp [h]

@[simp]
theorem put_eq_ok {u : Unit} : put buf size i = .ok u ↔ i < size := by
  rw [put]
  split_ifs with h
  · simp [h]
  · simp [h]

@[simp]
theorem forM_put_eq_ok {is : List ℕ} {u : Unit} :
    forM is (put buf size) = .ok u ↔ ∀ i ∈ is, i < size := by
  induction is with
  | nil => simp [pure, Except.pure]
  | cons i is ih =>
    rw [List.forM_cons, bind_eq_ok]
    simp [ih]

theorem copyText_eq_ok {text s : List UInt8} :
    copyText buf size text n = .ok s ↔
      (strCpyNA text n).length + 1 ≤ size ∧ s = strCpyNA text n := by
  simp only [copyText, bind_eq_ok, fill_eq_ok, pure, Except.pure, Except.ok.injEq]
  constructor
  · rintro ⟨_, hlen, rfl⟩
    exact ⟨hlen, rfl⟩
  · rintro ⟨hlen, rfl⟩
    exact ⟨(), hlen, rfl⟩

/-- `StrCpyNA` with the size of the array stays inside it. -/
theorem copyText_self (h : 0 < n) (text : List UInt8) :
    copyText buf n text n = .ok (strCpyNA text n) := by
  rw [copyText_eq_ok, strCpyNA, List.length_take]
  exact ⟨by omega, rfl⟩

end

/-! ## Lines -/

/-- What `ParseLine` makes of a trimmed line, in arrays that hold it. -/
def lineType (line : List UInt8) : LineType :=
  if line.length ≤ 0 then .empty
  else if strCmpNIA line (ascii "end") 3 then .ends
  else
    match strChrIA line 61 with
    | some pos => .param (strTrimA (line.take pos) blanks) (strTrimA (line.drop (pos + 1)) blanks)
    | none =>
      match strChrIA line 58 with
      | some pos => .item (strTrimA (line.take pos) blanks) (strTrimA (line.drop (pos + 1)) blanks)
      | none => .bad

/-- The arrays have room for what is in front of the delimiter of a trimmed line and for what is
behind it, each with two NULs; behind `:` they need one byte more. -/
def LineFits (size : ℕ) (line : List UInt8) : Prop :=
  lineType line ≠ .empty → lineType line ≠ .ends →
    match strChrIA line 61 with
    | some pos => pos + 1 < size ∧ line.length - pos < size
    | none =>
      match strChrIA line 58 with
      | some pos => pos + 1 < size ∧ line.length - pos + 1 < size
      | none => True

section

variable {size pos : ℕ} {line text : List UInt8} {t : LineType}

/-- The two strings and their NULs. -/
theorem copies_eq_ok {make : List UInt8 → List UInt8 → LineType} (hpos : pos < line.length)
    (extra : ℕ) :
    (do
      let lpName ← copyText .name size line (pos + 1)
      put .name size (pos + 1)
      let lpValue ← copyText .value size (line.drop (pos + 1)) (line.length - pos)
      put .value size (line.length - pos + extra)
      return make lpName lpValue) = Except.ok t ↔
    (pos + 1 < size ∧ line.length - pos + extra < size) ∧
      t = make (line.take pos) (line.drop (pos + 1)) := by
  have hname : strCpyNA line (pos + 1) = line.take pos := rfl
  have hvalue : strCpyNA (line.drop (pos + 1)) (line.length - pos) = line.drop (pos + 1) := by
    rw [strCpyNA, List.take_of_length_le]
    rw [List.length_drop]
    omega
  simp only [bind_eq_ok, copyText_eq_ok, put_eq_ok, hname, hvalue, List.length_take,
    List.length_drop, pure, Except.pure, Except.ok.injEq]
  constructor
  · rintro ⟨_, ⟨_, rfl⟩, _, hput, _, ⟨_, rfl⟩, _, hput', rfl⟩
    exact ⟨⟨hput, hput'⟩, rfl⟩
  · rintro ⟨⟨hput, hput'⟩, rfl⟩
    exact ⟨_, ⟨by omega, rfl⟩, (), hput, _, ⟨by omega, rfl⟩, (), hput', rfl⟩

/-- A line is read into arrays that hold its two strings. -/
theorem parseLine_eq_ok :
    parseLine size text = .ok t ↔
      LineFits size (strTrimA text blanks) ∧ t = lineType (strTrimA text blanks) := by
  generalize hline : strTrimA text blanks = line
  simp only [parseLine, hline, LineFits]
  rw [lineType]
  split_ifs with hempty hends
  · simp [eq_comm]
  · simp [eq_comm]
  · rcases hpos : strChrIA line 61 with _ | pos
    · rcases hpos' : strChrIA line 58 with _ | pos
      · simp [eq_comm]
      · dsimp only
        rw [copies_eq_ok (strChrIA_lt hpos') 1]
        simp
    · have hcopies := @copies_eq_ok size pos line t
        (fun lpName lpValue => .param (strTrimA lpName blanks) (strTrimA lpValue blanks))
        (strChrIA_lt hpos) 0
      simp only [Nat.add_zero] at hcopies
      dsimp only
      rw [hcopies]
      simp

/-- The arrays of an item are longer than its lines. -/
theorem lineFits_of_length (h : line.length + 2 ≤ size) : LineFits size line := by
  intro _ _
  rcases hpos : strChrIA line 61 with _ | pos
  · rcases hpos' : strChrIA line 58 with _ | pos
    · trivial
    · have hlt := strChrIA_lt hpos'
      dsimp only
      omega
  · have hlt := strChrIA_lt hpos
    dsimp only
    omega

end

/-! ## Parameters -/

/-- The arrays have room for a value of `LocalPath`: for what is between its slashes, for the NULs
of `strtok`, and for the directory. -/
def PathFits (p : Process) (value : List UInt8) : Prop :=
  value.length ≤ 2 ∨
    value.length ≤ 34 ∧
      (∀ i ∈ strtokStores (RopCfgItem.tmpText p value), i < MAX_NAME_LEN) ∧
      (RopCfgItem.localPathOf p value).length < MAX_NAME_LEN * 16

section

variable {p : Process} {item item' : RopCfgItem} {value : List UInt8} {param : ItemParam}

theorem length_pathOf (value : List UInt8) :
    (RopCfgItem.pathOf value).length = value.length - 2 := by
  rw [RopCfgItem.pathOf, List.length_take, List.length_drop]
  omega

/-- `strtok` stays inside a string that has its NUL. -/
theorem pathFits_iff_of_length (h : value.length ≤ 33) :
    PathFits p value ↔ (RopCfgItem.localPathOf p value).length < MAX_NAME_LEN * 16 := by
  by_cases hlen : value.length ≤ 2
  · have hfits := p.programPath_fits
    simp only [PathFits, hlen, true_or, RopCfgItem.localPathOf, if_true, true_iff]
    exact hfits
  · have htmp : (RopCfgItem.tmpText p value).length ≤ MAX_NAME_LEN := by
      have hpath : (streplace (RopCfgItem.pathOf value) 47 92).length < MAX_NAME_LEN := by
        rw [streplace, List.length_map, length_pathOf, MAX_NAME_LEN]
        omega
      rw [RopCfgItem.tmpText, if_pos hpath]
      exact Nat.le_of_lt hpath
    have hstores : ∀ i ∈ strtokStores (RopCfgItem.tmpText p value), i < MAX_NAME_LEN := by
      intro i hi
      rw [strtokStores, List.mem_filter, List.mem_range] at hi
      exact Nat.lt_of_lt_of_le hi.1 htmp
    rw [PathFits, or_iff_right hlen, and_iff_right (Nat.le_succ_of_le h), and_iff_right hstores]

theorem setLocalPath_safe_iff : Safe (item.setLocalPath p value) ↔ PathFits p value := by
  rw [RopCfgItem.setLocalPath, copyText_self (by decide)]
  by_cases hlen : value.length ≤ 2
  · have hfits := p.programPath_fits
    simp only [Safe, bind_eq_ok, fill_eq_ok, PathFits, hlen, if_true, true_or, iff_true,
      RopCfgItem.localPathOf]
    exact ⟨_, _, rfl, (), hfits, rfl⟩
  · simp only [Safe, bind_eq_ok, fill_eq_ok, forM_put_eq_ok, PathFits, hlen, if_false, false_or,
      length_pathOf]
    constructor
    · rintro ⟨_, _, _, _, _, _, hserver, _, hstores, _, hlocal, _⟩
      rw [MAX_NAME_LEN] at hserver
      exact ⟨by omega, hstores, hlocal⟩
    · rintro ⟨hserver, hstores, hlocal⟩
      refine ⟨_, _, rfl, (), ?_, (), ?_, (), hstores, (), hlocal, rfl⟩
      · omega
      · rw [MAX_NAME_LEN]
        omega

/-- `LocalPath` sets three of the paths. -/
theorem setLocalPath_eq (h : item.setLocalPath p value = .ok item') :
    item' = { item with
      orgLocalPath := strCpyNA value MAX_NAME_LEN
      serverPath := RopCfgItem.pathOf value ++
        item.serverPath.drop (RopCfgItem.pathOf value).length
      localPath := RopCfgItem.localPathOf p value } := by
  rw [RopCfgItem.setLocalPath, copyText_self (by decide)] at h
  split_ifs at h with hlen
  · simp only [bind_eq_ok] at h
    obtain ⟨_, hret, _, _, hitem⟩ := h
    cases hret
    cases hitem
    -- there is nothing behind the two characters
    have hpath : RopCfgItem.pathOf value = [] := by
      apply List.eq_nil_of_length_eq_zero
      rw [length_pathOf]
      omega
    simp [hpath]
  · simp only [bind_eq_ok] at h
    obtain ⟨_, hret, _, _, _, _, _, _, _, _, hitem⟩ := h
    cases hret
    cases hitem
    rfl

/-- Two branches can leave their arrays: the one for `LocalPath`, and the one for `SupportOS`. -/
theorem assign_safe_iff :
    Safe (item.assign p value param) ↔
      (param = .localPath → PathFits p value) ∧
        (param = .supportOS → item.supportOS.length < 32) := by
  cases param with
  | localPath => simp [RopCfgItem.assign, setLocalPath_safe_iff]
  | supportOS => simp [RopCfgItem.assign, safe_bind, pure, Except.pure]
  | _ => simp [RopCfgItem.assign, safe_bind, copyText_self, MAX_NAME_LEN, pure, Except.pure]

theorem length_supportOS_assign (h : item.assign p value param = .ok item') :
    item'.supportOS.length = item.supportOS.length + if param = .supportOS then 1 else 0 := by
  cases param with
  | localPath => rw [setLocalPath_eq h, if_neg (by decide), Nat.add_zero]
  | supportOS =>
    simp only [RopCfgItem.assign, bind_eq_ok] at h
    obtain ⟨_, _, hitem⟩ := h
    cases hitem
    simp
  | fileType | downloadMask | sizeOnServer =>
    cases h
    simp
  | _ =>
    simp only [RopCfgItem.assign, bind_eq_ok] at h
    obtain ⟨_, _, hitem⟩ := h
    cases hitem
    simp

end

/-! ## The lines of an item -/

/-- The parameter of an item that a trimmed line sets, and the value. -/
def paramOf (line : List UInt8) : Option (ItemParam × List UInt8) :=
  match lineType line with
  | .param name value =>
    (RopCfgItem.paramNamed name).map fun param => (param, strTrimA value lineBlanks)
  | _ => none

/-- The trimmed lines that an item reads, the one that ends it included, and the text left. -/
def itemLines : ℕ → List UInt8 → List (List UInt8) × List UInt8
  | 0, text => ([], text)
  | fuel + 1, text =>
    match readLine 1022 text with
    | none => ([], text)
    | some (stored, text) =>
      let line := strTrimA (cString stored) blanks
      match lineType line with
      | .empty => (line :: (itemLines fuel text).1, (itemLines fuel text).2)
      | .param _ _ => (line :: (itemLines fuel text).1, (itemLines fuel text).2)
      | _ => ([line], text)

/-- How many lines set `SupportOS`. -/
def osCount (lines : List (List UInt8)) : ℕ :=
  lines.countP fun line => (paramOf line).map Prod.fst = some .supportOS

/-- The paths in the values of `LocalPath` fit. -/
def PathsFit (p : Process) (lines : List (List UInt8)) : Prop :=
  ∀ line ∈ lines, ∀ value, paramOf line = some (.localPath, value) → PathFits p value

section

variable {p : Process} {item item' : RopCfgItem} {fuel : ℕ} {text stored rest line : List UInt8}
  {lines : List (List UInt8)} {r : RopCfgItem × ℤ × List UInt8}

theorem length_cString_le (stored : List UInt8) : (cString stored).length ≤ stored.length :=
  (List.takeWhile_prefix _).length_le

/-- A round of the loop of an item, whose arrays hold the line. -/
theorem readLoop_succ (hread : readLine 1022 text = some (stored, rest)) :
    item.readLoop p (fuel + 1) text =
      match lineType (strTrimA (cString stored) blanks) with
      | .empty => item.readLoop p fuel rest
      | .ends => .ok (item, 0, rest)
      | .param name value => do
        let set ← item.setParam p name value
        set.1.readLoop p fuel rest
      | .item _ _ => .ok (item, -1, rest)
      | .bad => .ok (item, -2, rest) := by
  have hlen : stored.length ≤ 1022 := length_readLine_le (by decide) hread
  have hline : (strTrimA (cString stored) blanks).length ≤ 1022 :=
    Nat.le_trans (length_strTrimA_le _ _) (Nat.le_trans (length_cString_le stored) hlen)
  have hfill : fill .line 1024 (stored.length + 1) = .ok () := fill_eq_ok.2 (by omega)
  have hparse : parseLine 1024 (cString stored) =
      .ok (lineType (strTrimA (cString stored) blanks)) :=
    parseLine_eq_ok.2 ⟨lineFits_of_length (by omega), rfl⟩
  rw [RopCfgItem.readLoop, hread]
  dsimp only
  rw [hfill, hparse]
  rfl

theorem osCount_cons (line : List UInt8) (lines : List (List UInt8)) :
    osCount (line :: lines) =
      osCount lines + if (paramOf line).map Prod.fst = some .supportOS then 1 else 0 := by
  by_cases hos : (paramOf line).map Prod.fst = some .supportOS
  · rw [osCount, List.countP_cons_of_pos (by simpa using hos), if_pos hos, osCount]
  · rw [osCount, List.countP_cons_of_neg (by simpa using hos), if_neg hos, osCount,
      Nat.add_zero]

theorem pathsFit_cons :
    PathsFit p (line :: lines) ↔
      (∀ value, paramOf line = some (.localPath, value) → PathFits p value) ∧ PathsFit p lines :=
  List.forall_mem_cons

/-- A line that sets nothing does not count. -/
theorem fits_cons_of_none (h : paramOf line = none) {n : ℕ} :
    n + osCount (line :: lines) ≤ 32 ∧ PathsFit p (line :: lines) ↔
      n + osCount lines ≤ 32 ∧ PathsFit p lines := by
  rw [osCount_cons, pathsFit_cons, h]
  simp

/-- The arrays of an item hold what its lines set. The induction is on the lines that may still be
read, for every item with so many entries in `SupportOS`. -/
theorem readLoop_safe_iff (hos : item.supportOS.length ≤ 32) :
    Safe (item.readLoop p fuel text) ↔
      item.supportOS.length + osCount (itemLines fuel text).1 ≤ 32 ∧
        PathsFit p (itemLines fuel text).1 := by
  induction fuel generalizing item text with
  | zero => simp [RopCfgItem.readLoop, itemLines, osCount, PathsFit, hos]
  | succ fuel ih =>
    rcases hread : readLine 1022 text with _ | ⟨stored, rest⟩
    · simp [RopCfgItem.readLoop, itemLines, hread, osCount, PathsFit, hos]
    · rw [readLoop_succ hread, itemLines, hread]
      dsimp only
      generalize strTrimA (cString stored) blanks = line
      rcases hline : lineType line with _ | _ | ⟨name, value⟩ | _ | _
      case empty =>
        dsimp only
        rw [fits_cons_of_none (by rw [paramOf, hline])]
        exact ih hos
      case param =>
        dsimp only
        rcases hparam : RopCfgItem.paramNamed name with _ | param
        · rw [fits_cons_of_none (by simp [paramOf, hline, hparam])]
          rw [RopCfgItem.setParam, hparam]
          exact ih hos
        · have hof : paramOf line = some (param, strTrimA value lineBlanks) := by
            simp [paramOf, hline, hparam]
          rw [osCount_cons, pathsFit_cons, hof, RopCfgItem.setParam, hparam, safe_bind]
          -- the lines behind it, for the item that it leaves
          have hset (item' : RopCfgItem) (hassign :
              item.assign p (strTrimA value lineBlanks) param = .ok item') :
              Safe (item'.readLoop p fuel rest) ↔
                item.supportOS.length + (osCount (itemLines fuel rest).1 +
                  if param = .supportOS then 1 else 0) ≤ 32 ∧
                  PathsFit p (itemLines fuel rest).1 := by
            have hlen := length_supportOS_assign hassign
            have hroom := (assign_safe_iff.1 ⟨item', hassign⟩).2
            rw [ih, hlen]
            · rw [Nat.add_assoc, Nat.add_comm (ite _ _ _)]
            · split_ifs at hlen with hos'
              · have := hroom hos'
                omega
              · omega
          simp only [bind_eq_ok, Option.map_some, Option.some.injEq, Prod.mk.injEq, and_imp]
          constructor
          · rintro ⟨_, ⟨item', hassign, hret⟩, hsafe⟩
            cases hret
            obtain ⟨hcount, hpaths⟩ := (hset item' hassign).1 hsafe
            refine ⟨hcount, ?_, hpaths⟩
            rintro _ rfl rfl
            exact (assign_safe_iff.1 ⟨item', hassign⟩).1 rfl
          · rintro ⟨hcount, hpath, hpaths⟩
            have hassign : Safe (item.assign p (strTrimA value lineBlanks) param) := by
              rw [assign_safe_iff]
              refine ⟨fun hlocal => hpath _ hlocal rfl, fun hos' => ?_⟩
              rw [if_pos hos'] at hcount
              omega
            obtain ⟨item', hassign⟩ := hassign
            exact ⟨(item', 0), ⟨item', hassign, rfl⟩, (hset item' hassign).2 ⟨hcount, hpaths⟩⟩
      all_goals
        dsimp only
        rw [fits_cons_of_none (by rw [paramOf, hline])]
        simp [osCount, PathsFit, hos]

/-- The loop leaves the text behind the lines of the item. -/
theorem readLoop_rest (h : item.readLoop p fuel text = .ok r) :
    r.2.2 = (itemLines fuel text).2 := by
  induction fuel generalizing item text with
  | zero =>
    cases h
    rfl
  | succ fuel ih =>
    rcases hread : readLine 1022 text with _ | ⟨stored, rest⟩
    · rw [RopCfgItem.readLoop, hread] at h
      cases h
      rw [itemLines, hread]
    · rw [readLoop_succ hread] at h
      rw [itemLines, hread]
      dsimp only
      generalize strTrimA (cString stored) blanks = line at h
      rcases hline : lineType line with _ | _ | ⟨name, value⟩ | _ | _
      case empty =>
        rw [hline] at h
        exact ih h
      case param =>
        rw [hline] at h
        obtain ⟨_, _, hloop⟩ := bind_eq_ok.1 h
        exact ih hloop
      all_goals
        rw [hline] at h
        cases h
        rfl

end

/-! ## The lines of the file -/

/-- What the loop of the file reads at a time. -/
inductive Stretch
  /-- A trimmed line of its own. -/
  | line (line : List UInt8)
  /-- The trimmed lines of an item. -/
  | item (lines : List (List UInt8))
  deriving DecidableEq, Repr

/-- What the loops read of a text, up to the line that ends the file. -/
def stretches : ℕ → List UInt8 → List Stretch
  | 0, _ => []
  | fuel + 1, text =>
    match readLine 511 text with
    | none => []
    | some (stored, text) =>
      let line := strTrimA (cString stored) blanks
      match lineType line with
      | .empty => .line line :: stretches fuel text
      | .param _ _ => .line line :: stretches fuel text
      | .item _ value =>
        if strCmpNIA value CFG_ITEM_KEY value.length then
          .line line :: .item (itemLines text.length text).1 ::
            stretches fuel (itemLines text.length text).2
        else .line line :: stretches fuel text
      | _ => [.line line]

/-- The arrays hold what is read. -/
def Stretch.Fits (p : Process) : Stretch → Prop
  | .line l => LineFits 128 l
  | .item lines => osCount lines ≤ 32 ∧ PathsFit p lines

section

variable {p : Process} {raw : RopCfgItem} {cfg cfg' : RopCfgFile} {fuel : ℕ}
  {text stored rest name value : List UInt8} {param : FileParam}

/-- The copies of `RopCfgFile::SetParam` are as long as their arrays. -/
theorem assign_safe (cfg : RopCfgFile) (value : List UInt8) (param : FileParam) :
    Safe (cfg.assign value param) := by
  cases param with
  | _ => simp [RopCfgFile.assign, safe_bind, copyText_self, MAX_NAME_LEN, pure, Except.pure]

theorem setParam_safe (cfg : RopCfgFile) (name value : List UInt8) :
    Safe (cfg.setParam name value) := by
  rw [RopCfgFile.setParam]
  rcases RopCfgFile.paramNamed name with _ | param
  · exact safe_ok
  · obtain ⟨cfg', hassign⟩ := assign_safe cfg (strTrimA value lineBlanks) param
    exact safe_bind.2 ⟨cfg', hassign, safe_ok⟩

/-- No parameter makes an item. -/
theorem vItem_assign (h : cfg.assign value param = .ok cfg') : cfg'.vItem = cfg.vItem := by
  cases param with
  | downloadmask | httpServerDownloadPort | serverServicePort | sleepBeforeDial =>
    cases h
    rfl
  | _ =>
    simp only [RopCfgFile.assign, bind_eq_ok] at h
    obtain ⟨_, _, hcfg⟩ := h
    cases hcfg
    rfl

/-- A new item, before it reads its lines. -/
def freshItem (raw : RopCfgItem) (name tmpPath : List UInt8) : RopCfgItem :=
  { raw with
    name := strCpyNA name MAX_NAME_LEN
    tmpPath := strCpyNA tmpPath MAX_NAME_LEN
    bNeedUpdate := false
    supportOS := []
    nameOnServer := []
    extOnServer := []
    nameOnLocal := []
    extOnLocal := []
    localPath := []
    verOnServer := []
    serverPath := []
    tmpSuffix := ascii "tmp" }

theorem readItem_eq :
    RopCfgFile.readItem p raw cfg name text = do
      let r ← (freshItem raw name cfg.localPath).readAndInit p text
      return (r.1, r.2.2) := by
  rw [RopCfgFile.readItem, RopCfgItem.new, copyText_self (by decide)]
  simp only [RopCfgItem.setPath, copyText_self (show 0 < MAX_NAME_LEN by decide)]
  rfl

/-- A new item has no entries in `SupportOS`. -/
theorem readItem_safe_iff :
    Safe (RopCfgFile.readItem p raw cfg name text) ↔
      (Stretch.item (itemLines text.length text).1).Fits p := by
  have hloop : Safe ((freshItem raw name cfg.localPath).readAndInit p text) ↔
      (Stretch.item (itemLines text.length text).1).Fits p := by
    rw [RopCfgItem.readAndInit, readLoop_safe_iff (by simp [freshItem]), freshItem,
      List.length_nil, Nat.zero_add]
    rfl
  rw [readItem_eq, safe_bind, ← hloop]
  simp [Safe, pure, Except.pure]

theorem readItem_rest {r : RopCfgItem × List UInt8}
    (h : RopCfgFile.readItem p raw cfg name text = .ok r) :
    r.2 = (itemLines text.length text).2 := by
  rw [readItem_eq, bind_eq_ok] at h
  obtain ⟨r', hloop, hret⟩ := h
  cases hret
  exact readLoop_rest hloop

/-- A round of the loop of the file, whose arrays hold the line. -/
theorem file_readLoop_succ {raw : ℕ → RopCfgItem} (hread : readLine 511 text = some (stored, rest))
    (hfits : LineFits 128 (strTrimA (cString stored) blanks)) :
    cfg.readLoop p raw (fuel + 1) text =
      match lineType (strTrimA (cString stored) blanks) with
      | .empty => cfg.readLoop p raw fuel rest
      | .ends => .ok (cfg, 0)
      | .param name value => do
        let set ← cfg.setParam name value
        set.1.readLoop p raw fuel rest
      | .item name value =>
        if strCmpNIA value CFG_ITEM_KEY value.length then do
          let r ← RopCfgFile.readItem p (raw cfg.vItem.length) cfg name rest
          { cfg with vItem := cfg.vItem ++ [r.1] }.readLoop p raw fuel r.2
        else cfg.readLoop p raw fuel rest
      | .bad => .ok (cfg, -2) := by
  have hlen : stored.length ≤ 511 := length_readLine_le (by decide) hread
  have hfill : fill .line 512 (stored.length + 1) = .ok () := fill_eq_ok.2 (by omega)
  have hparse : parseLine 128 (cString stored) =
      .ok (lineType (strTrimA (cString stored) blanks)) :=
    parseLine_eq_ok.2 ⟨hfits, rfl⟩
  rw [RopCfgFile.readLoop, hread]
  dsimp only
  rw [hfill, hparse]
  rfl

/-- The loop goes on only if the arrays hold the line. -/
theorem lineFits_of_safe {raw : ℕ → RopCfgItem} (hread : readLine 511 text = some (stored, rest))
    (h : Safe (cfg.readLoop p raw (fuel + 1) text)) :
    LineFits 128 (strTrimA (cString stored) blanks) := by
  rw [RopCfgFile.readLoop, hread] at h
  dsimp only at h
  obtain ⟨_, _, hsafe⟩ := safe_bind.1 h
  obtain ⟨_, hparse, _⟩ := safe_bind.1 hsafe
  exact (parseLine_eq_ok.1 hparse).1

/-- The arrays hold what the loops read. The induction is on the lines of the file that may still be
read, for every configuration. -/
theorem file_readLoop_safe_iff (raw : ℕ → RopCfgItem) :
    Safe (cfg.readLoop p raw fuel text) ↔ ∀ s ∈ stretches fuel text, s.Fits p := by
  induction fuel generalizing cfg text with
  | zero => simp [RopCfgFile.readLoop, stretches]
  | succ fuel ih =>
    rcases hread : readLine 511 text with _ | ⟨stored, rest⟩
    · simp [RopCfgFile.readLoop, stretches, hread]
    · by_cases hfits : LineFits 128 (strTrimA (cString stored) blanks)
      swap
      · -- whatever the line is, it is the first one to fit
        constructor
        · intro hsafe
          exact absurd (lineFits_of_safe hread hsafe) hfits
        · intro hall
          refine absurd (hall (.line (strTrimA (cString stored) blanks)) ?_) hfits
          rw [stretches, hread]
          dsimp only
          split
          case h_3 => split_ifs <;> exact List.mem_cons_self
          all_goals exact List.mem_cons_self
      rw [file_readLoop_succ hread hfits, stretches, hread]
      dsimp only
      generalize strTrimA (cString stored) blanks = line at hfits
      have hline' : (Stretch.line line).Fits p := hfits
      rcases hline : lineType line with _ | _ | ⟨name, value⟩ | ⟨name, value⟩ | _
      case empty =>
        dsimp only
        rw [ih, List.forall_mem_cons, and_iff_right hline']
      case param =>
        dsimp only
        rw [safe_bind, List.forall_mem_cons, and_iff_right hline']
        constructor
        · rintro ⟨_, _, hsafe⟩
          exact ih.1 hsafe
        · intro hall
          obtain ⟨set, hset⟩ := setParam_safe cfg name value
          exact ⟨set, hset, ih.2 hall⟩
      case item =>
        dsimp only
        split_ifs with hkey
        · rw [safe_bind, List.forall_mem_cons, and_iff_right hline', List.forall_mem_cons]
          constructor
          · rintro ⟨r, hitem, hsafe⟩
            refine ⟨readItem_safe_iff.1 ⟨r, hitem⟩, ?_⟩
            rw [← readItem_rest hitem]
            exact ih.1 hsafe
          · rintro ⟨hitem, hall⟩
            obtain ⟨r, hitem⟩ := readItem_safe_iff.2 hitem
            refine ⟨r, hitem, ?_⟩
            rw [readItem_rest hitem]
            exact ih.2 hall
        · rw [ih, List.forall_mem_cons, and_iff_right hline']
      all_goals simp [hline']

/-- A text is read without a write outside the arrays if and only if they hold what is read of
it. -/
theorem readAndInit_safe_iff (p : Process) (raw : ℕ → RopCfgItem) (cfg : RopCfgFile)
    (text : List UInt8) :
    Safe (cfg.readAndInit p raw text) ↔ ∀ s ∈ stretches text.length text, s.Fits p :=
  file_readLoop_safe_iff raw

end

/-- A process whose program is in `C:\\Gendo`. -/
def gendoProcess : Process := ⟨ascii "C:\\Gendo", [], by decide⟩

/-- The memory of a new item. -/
def zeroItem : RopCfgItem :=
  ⟨false, [], [], [], [], [], [], [], [], [], [], [], [], [], 0, [], 0, 0⟩

/-- A new configuration, in memory of zeros. -/
def zeroFile : RopCfgFile := ⟨[], [], [], [], [], 0, [], [], 0, [], 0, [], 0, [], [], [], [], []⟩

set_option maxRecDepth 4000 in
/-- A line with 127 characters in front of its `=`, for the 128 bytes of `Name`. -/
theorem not_safe_longName :
    ¬Safe (zeroFile.readAndInit gendoProcess (fun _ => zeroItem)
      (List.replicate 127 97 ++ [61, 49])) := by
  rintro ⟨r, hr⟩
  have herror : zeroFile.readAndInit gendoProcess (fun _ => zeroItem)
      (List.replicate 127 97 ++ [61, 49]) = .error .name := rfl
  rw [herror] at hr
  cases hr

end Gendo.Client.Cfg
