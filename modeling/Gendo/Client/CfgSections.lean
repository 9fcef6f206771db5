import Gendo.Client.CfgBounds

/-!
# Sections of the update configuration

Where the lines are that `RopCfgFile::ReadAndInit` gives to its items. `md5Lines` are the lines that
name the Md5 of an item first, and `isMd5_of_owner` finds them in the text;
`length_vItem_of_readAndInit` says that there is an entry for each item that was read.
-/

namespace Gendo.Client.Cfg

open BufferedLines Shlwapi

/-- The lines of a configuration file, each as `ReadLine` stores it. -/
def fileLines (text : List UInt8) : List (List UInt8) := lines 511 511 text

/-- A line without the blanks around it. -/
def trimLine (line : List UInt8) : List UInt8 := strTrimA line blanks

/-- A text of at most 1000 lines of fewer than 511 characters. -/
structure ConfigFile (text : List UInt8) : Prop where
  string : 0 ∉ text
  rows : (fileLines text).length ≤ 1000
  cols : ShortLines 511 text

/-- A trimmed line that has the name of the Md5. -/
def IsMd5 (line : List UInt8) : Prop :=
  match lineType line with
  | .param name _ => SameText name (ascii "Md5")
  | _ => False

instance (line : List UInt8) : Decidable (IsMd5 line) := by
  unfold IsMd5
  split <;> infer_instance

/-- The trimmed lines that are read. -/
def Stretch.lines : Stretch → List (List UInt8)
  | .line l => [l]
  | .item ls => ls

/-- The number of the first line with an Md5, for each item; the first line has this number. -/
def md5Lines : ℕ → List Stretch → List (Option ℕ)
  | _, [] => []
  | n, .line _ :: ss => md5Lines (n + 1) ss
  | n, .item lines :: ss =>
    (lines.findIdx? fun line => IsMd5 line).map (fun i => n + i) :: md5Lines (n + lines.length) ss

/-- The item whose first line with an Md5 this is. -/
def owner (text : List UInt8) (items : List RopCfgItem) (i : ℕ) : Option RopCfgItem :=
  (((md5Lines 0 (stretches text.length text)).zip items).find? fun s => s.1 = some i).map Prod.snd

section

variable {p : Process} {raw : ℕ → RopCfgItem} {cfg cfg' : RopCfgFile} {item : RopCfgItem}
  {items : List RopCfgItem} {text rest line : List UInt8} {ss : List Stretch} {fuel i n : ℕ} {r : ℤ}

/-! ## The lines that are read -/

theorem cString_of_notMem (h : 0 ∉ text) : cString text = text := by
  rw [cString, List.takeWhile_eq_self_iff]
  intro c hc
  exact decide_eq_true fun heq : c = 0 => h (heq ▸ hc)

/-- What the loops read of the first line, and the text behind it. -/
theorem readLine_of_cols (hstring : 0 ∉ text) (hcols : ShortLines 511 text) (hne : text ≠ []) :
    ∃ l rest, (∀ k, 511 ≤ k → readLine k text = some (l, rest)) ∧
      fileLines text = l :: fileLines rest ∧ cString l = l ∧ 0 ∉ rest ∧ ShortLines 511 rest := by
  obtain ⟨l, rest, rfl, -, hlines⟩ := hcols.exists_cons hne
  rw [List.mem_append, not_or] at hstring
  refine ⟨l, rest, fun k hk => ?_, hlines 511 (Nat.le_refl _), cString_of_notMem hstring.1,
    hstring.2, hcols.of_infix (List.suffix_append l rest).isInfix⟩
  rw [readLine, hlines k hk]
  dsimp only
  rw [flatten_lines]

/-- The lines of an item are those in front of the text that is left. -/
theorem itemLines_append (hstring : 0 ∉ text) (hcols : ShortLines 511 text) (fuel : ℕ) :
    (itemLines fuel text).1 ++ (fileLines (itemLines fuel text).2).map trimLine =
        (fileLines text).map trimLine ∧
      0 ∉ (itemLines fuel text).2 ∧ ShortLines 511 (itemLines fuel text).2 := by
  induction fuel generalizing text with
  | zero => exact ⟨rfl, hstring, hcols⟩
  | succ fuel ih =>
    rw [itemLines]
    by_cases hne : text = []
    · subst hne
      exact ⟨rfl, hstring, hcols⟩
    · obtain ⟨l, rest, hread, hlines, hl, hstring', hcols'⟩ := readLine_of_cols hstring hcols hne
      obtain ⟨happend, hrest⟩ := ih hstring' hcols'
      rw [hread 1022 (by decide)]
      dsimp only
      rw [hlines, hl, List.map_cons]
      split
      · exact ⟨congrArg (List.cons (trimLine l)) happend, hrest⟩
      · exact ⟨congrArg (List.cons (trimLine l)) happend, hrest⟩
      · exact ⟨rfl, hstring', hcols'⟩

/-- What is read are the first lines of the text. -/
theorem stretches_isPrefix (hstring : 0 ∉ text) (hcols : ShortLines 511 text) (fuel : ℕ) :
    (stretches fuel text).flatMap Stretch.lines <+: (fileLines text).map trimLine := by
  induction fuel generalizing text with
  | zero => exact List.nil_prefix
  | succ fuel ih =>
    rw [stretches]
    by_cases hne : text = []
    · subst hne
      exact List.nil_prefix
    · obtain ⟨l, rest, hread, hlines, hl, hstring', hcols'⟩ := readLine_of_cols hstring hcols hne
      have hnext := List.cons_prefix_cons.2 ⟨Eq.refl (trimLine l), ih hstring' hcols'⟩
      rw [hread 511 (by decide)]
      dsimp only
      rw [hlines, hl, List.map_cons]
      split
      · exact hnext
      · exact hnext
      · split_ifs
        · obtain ⟨happend, hstring'', hcols''⟩ := itemLines_append hstring' hcols' rest.length
          have hitem := (List.prefix_append_right_inj (itemLines rest.length rest).1).2
            (ih hstring'' hcols'')
          rw [happend] at hitem
          exact List.cons_prefix_cons.2 ⟨Eq.refl (trimLine l), hitem⟩
        · exact hnext
      · exact List.cons_prefix_cons.2 ⟨Eq.refl (trimLine l), List.nil_prefix⟩

/-- A line that is found in an item has the name of the Md5. -/
theorem isMd5_of_mem (h : some i ∈ md5Lines n ss) :
    ∃ j line, i = n + j ∧ (ss.flatMap Stretch.lines)[j]? = some line ∧ IsMd5 line := by
  induction ss generalizing n with
  | nil => cases h
  | cons s ss ih =>
    rw [List.flatMap_cons]
    cases s with
    | line l =>
      obtain ⟨j, line, rfl, hline, hmd5⟩ := ih h
      exact ⟨j + 1, line, by omega, hline, hmd5⟩
    | item ls =>
      rw [md5Lines, List.mem_cons] at h
      rcases h with hhere | hlater
      · obtain ⟨j, hj, rfl⟩ := Option.map_eq_some_iff.1 hhere.symm
        obtain ⟨hlt, hmd5, -⟩ := List.findIdx?_eq_some_iff_getElem.1 hj
        refine ⟨j, ls[j], rfl, ?_, of_decide_eq_true hmd5⟩
        rw [Stretch.lines, List.getElem?_append_left hlt, List.getElem?_eq_getElem hlt]
      · obtain ⟨j, line, rfl, hline, hmd5⟩ := ih hlater
        refine ⟨ls.length + j, line, by omega, ?_, hmd5⟩
        rw [Stretch.lines, List.getElem?_append_right (Nat.le_add_right _ _),
          Nat.add_sub_cancel_left]
        exact hline

/-- The line of an Md5 is in the text. -/
theorem isMd5_of_owner (hstring : 0 ∉ text) (hcols : ShortLines 511 text)
    (h : owner text items i = some item) :
    item ∈ items ∧ ∃ l, (fileLines text)[i]? = some l ∧ IsMd5 (trimLine l) := by
  obtain ⟨⟨number, item'⟩, hfind, rfl⟩ := Option.map_eq_some_iff.1 h
  obtain ⟨hnumber, hitem⟩ := List.of_mem_zip (List.mem_of_find?_eq_some hfind)
  have hfound : number = some i := by simpa using List.find?_some hfind
  rw [hfound] at hnumber
  obtain ⟨j, line, rfl, hline, hmd5⟩ := isMd5_of_mem hnumber
  obtain ⟨hj, rfl⟩ := List.getElem?_eq_some_iff.1 hline
  have hread := List.prefix_iff_getElem?.1 (stretches_isPrefix hstring hcols text.length) j hj
  rw [List.getElem?_map] at hread
  obtain ⟨l, hl, htrim⟩ := Option.map_eq_some_iff.1 hread
  refine ⟨hitem, l, by rwa [Nat.zero_add], ?_⟩
  rwa [htrim]

/-! ## The items that are read -/

theorem vItem_setParam {name value : List UInt8} (h : cfg.setParam name value = .ok (cfg', r)) :
    cfg'.vItem = cfg.vItem := by
  rw [RopCfgFile.setParam] at h
  rcases hparam : RopCfgFile.paramNamed name with _ | param
  · rw [hparam] at h
    cases h
    rfl
  · rw [hparam] at h
    obtain ⟨_, hassign, hret⟩ := bind_eq_ok.1 h
    cases hret
    exact vItem_assign hassign

/-- The loop makes an item for each section. -/
theorem length_vItem_of_readLoop (h : cfg.readLoop p raw fuel text = .ok (cfg', r)) (n : ℕ) :
    cfg'.vItem.length = cfg.vItem.length + (md5Lines n (stretches fuel text)).length := by
  induction fuel generalizing cfg text n with
  | zero =>
    cases h
    rfl
  | succ fuel ih =>
    rw [stretches]
    rcases hread : readLine 511 text with _ | ⟨stored, rest⟩
    · rw [RopCfgFile.readLoop, hread] at h
      cases h
      rfl
    · rw [file_readLoop_succ hread (lineFits_of_safe hread ⟨_, h⟩)] at h
      dsimp only
      generalize strTrimA (cString stored) blanks = line at h ⊢
      rcases hline : lineType line with _ | _ | ⟨name, value⟩ | ⟨name, value⟩ | _
      case empty =>
        rw [hline] at h
        exact ih h (n + 1)
      case param =>
        rw [hline] at h
        obtain ⟨⟨set, _⟩, hset, hloop⟩ := bind_eq_ok.1 h
        have hnext := ih hloop (n + 1)
        rw [vItem_setParam hset] at hnext
        exact hnext
      case item =>
        rw [hline] at h
        dsimp only at h ⊢
        split_ifs at h ⊢ with hkey
        · -- the lines of the item are read by another loop, and this one goes on behind them
          obtain ⟨⟨item, rest'⟩, hitem, hloop⟩ := bind_eq_ok.1 h
          obtain rfl := readItem_rest hitem
          dsimp only at hloop ⊢
          have hnext := ih hloop (n + 1 + (itemLines rest.length rest).1.length)
          rw [List.length_append, List.length_singleton] at hnext
          rw [md5Lines, md5Lines, List.length_cons, hnext]
          omega
        · exact ih h (n + 1)
      all_goals
        rw [hline] at h
        cases h
        rfl

/-- There is an entry for each item of the file. -/
theorem length_vItem_of_readAndInit (hnew : cfg.vItem = [])
    (h : cfg.readAndInit p raw text = .ok (cfg', r)) :
    cfg'.vItem.length = (md5Lines 0 (stretches text.length text)).length := by
  rw [length_vItem_of_readLoop h 0, hnew, List.length_nil, Nat.zero_add]

end

end Gendo.Client.Cfg
