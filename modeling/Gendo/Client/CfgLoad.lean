import Gendo.Client.CfgParams
import Mathlib.Data.List.Forall2

/-!
# Loading the update configuration

`loadsAsWritten_iff` says which configurations `RopCfgFile::ReadAndInit` loads as they are written:
those where no name begins with `end` or is a proper beginning of the name of a parameter, and where
no path of an item is longer than its last one. `item_run` and `file_run` are the runs of the two
loops over a text with plain names.
-/

namespace Gendo.Client.Cfg

open BufferedLines Shlwapi

/-! ## Runs over the lines -/

/-- What a line does to an item. -/
def itemStep (p : Process) (item : RopCfgItem) : Setting → RopCfgItem
  | none => item
  | some (name, value) =>
    match RopCfgItem.paramNamed name with
    | none => item
    | some param => (item.assign p value param).toOption.getD item

/-- An item that its lines are read for. -/
def itemOf (p : Process) (raw : RopCfgItem) (tmpPath name : List UInt8) (body : List Setting) :
    RopCfgItem :=
  body.foldl (itemStep p) (freshItem raw name tmpPath)

/-- What a part of the text does to the configuration. -/
def fileStep (p : Process) (raw : ℕ → RopCfgItem) (cfg : RopCfgFile) : Entry → RopCfgFile
  | .line none => cfg
  | .line (some (name, value)) =>
    match RopCfgFile.paramNamed name with
    | none => cfg
    | some param => (cfg.assign value param).toOption.getD cfg
  | .item name body =>
    { cfg with
      vItem := cfg.vItem ++ [itemOf p (raw cfg.vItem.length) cfg.localPath name body] }

/-- What `ParseLine` makes of a blank line, or one with a name and a value. -/
def settingType : Setting → LineType
  | none => .empty
  | some (name, value) => if Abbreviates (ascii "end") name then .ends else .param name value

/-- The names in lines are plain. -/
def PlainSettings {κ : Type} (table : List κ) (text : κ → List UInt8) (settings : List Setting) :
    Prop :=
  ∀ name value, some (name, value) ∈ settings → PlainName table text name

/-- The names in the lines of a configuration are plain, and no item has a name that begins with
`end`. -/
structure PlainNames (es : List Entry) : Prop where
  globals : PlainSettings FileParam.chain FileParam.text (globals es)
  bodies : ∀ i ∈ items es, PlainSettings ItemParam.chain ItemParam.text i.2
  items : ∀ i ∈ items es, ¬Abbreviates (ascii "end") i.1

/-- There is room for the values in the lines of an item. -/
def BodyHolds (p : Process) (body : List Setting) : Prop :=
  ∀ name value, some (name, value) ∈ body → ∀ param : ItemParam, SameText name param.text →
    param.Holds p value

/-- There is room for the names of the items and the values of the parameters. -/
structure Fits (p : Process) (es : List Entry) : Prop where
  globals : ∀ name value, some (name, value) ∈ globals es → ∀ param : FileParam,
    SameText name param.text → param.Holds value
  names : ∀ i ∈ items es, i.1.length < MAX_NAME_LEN
  bodies : ∀ i ∈ items es, BodyHolds p i.2
  supportOS : ∀ i ∈ items es, (valuesOf ItemParam.supportOS.text i.2).length ≤ 32

section

variable {p : Process} {item item' : RopCfgItem} {cfg cfg' : RopCfgFile}
  {raw : ℕ → RopCfgItem} {text stored rest value name : List UInt8} {body : List Setting}
  {setting : Setting} {more : List (Bool × Line)} {fuel n : ℕ}

/-- What `ParseLine` makes of a line of a name and a value that is read. -/
theorem lineType_stored_setting (h : (Line.setting setting).Writes text)
    (hstored : stored = text ∨ stored = text ++ [LF]) :
    lineType (strTrimA (cString stored) blanks) = settingType setting := by
  rcases setting with _ | ⟨name, value⟩
  · have hpad : Pad text := h
    have htrim : strTrimA (cString stored) blanks = [] :=
      strTrimA_stored (List.forall_mem_nil _) (by decide) hpad (List.forall_mem_nil _)
        (by simpa using hstored)
    rw [htrim]
    rfl
  · have hplain := h.plain
    obtain ⟨hname, heq, hvalue, hne, indent, before, after, trail, hindent, hbefore, hafter, htrail,
      hempty, rfl⟩ := h
    have htrim : strTrimA (cString stored) blanks =
        name ++ (before ++ 61 :: (after ++ value)) := by
      refine strTrimA_stored (fun c hc => ?_)
        (trimmed_keyed hname hempty (by decide) hvalue hne) hindent htrail hstored
      exact (hplain c (List.mem_append_right _ (List.mem_append_left _ hc))).1
    rw [htrim, lineType_setting hname heq hbefore hafter hvalue]
    rfl

theorem lineType_stored_header (h : (Line.header name).Writes text)
    (hstored : stored = text ∨ stored = text ++ [LF]) :
    lineType (strTrimA (cString stored) blanks) =
      if Abbreviates (ascii "end") name then .ends else .item name CFG_ITEM_KEY := by
  have hplain := h.plain
  obtain ⟨hname, heq, hcolon, indent, before, after, trail, hindent, hbefore, hafter, htrail,
    hempty, rfl⟩ := h
  have hkey : IsText CFG_ITEM_KEY := ⟨by decide, by decide +kernel⟩
  have htrim : strTrimA (cString stored) blanks =
      name ++ (before ++ 58 :: (after ++ CFG_ITEM_KEY)) := by
    refine strTrimA_stored (fun c hc => ?_)
      (trimmed_keyed hname hempty (by decide) hkey (by decide)) hindent htrail hstored
    exact (hplain c (List.mem_append_right _ (List.mem_append_left _ hc))).1
  rw [htrim, lineType_header hname heq hcolon hbefore hafter]

theorem lineType_stored_ends (h : Line.ends.Writes text)
    (hstored : stored = text ∨ stored = text ++ [LF]) :
    lineType (strTrimA (cString stored) blanks) = .ends := by
  obtain ⟨indent, trail, hindent, htrail, rfl⟩ := h
  rw [strTrimA_stored (by decide +kernel) (by decide) hindent htrail hstored]
  decide

/-- The name and the value of a line that is written are what `SetParam` gets. -/
theorem isText_of_writes (h : (Line.setting (some (name, value))).Writes text) :
    IsText name ∧ IsText value :=
  ⟨h.1, h.2.2.1⟩

theorem paramNamed_iff (hname : IsText name)
    (hplain : PlainName ItemParam.chain ItemParam.text name) {param : ItemParam} :
    RopCfgItem.paramNamed name = some param ↔ SameText name param.text := by
  rw [RopCfgItem.paramNamed, hname.strTrimA_lineBlanks]
  exact byAbbrev_iff_of_plain ItemParam.unambiguous param.mem_chain hplain

theorem paramNamed_file_iff (hname : IsText name)
    (hplain : PlainName FileParam.chain FileParam.text name) {param : FileParam} :
    RopCfgFile.paramNamed name = some param ↔ SameText name param.text := by
  rw [RopCfgFile.paramNamed, hname.strTrimA_lineBlanks]
  exact byAbbrev_iff_of_plain FileParam.unambiguous param.mem_chain hplain

theorem valueOf_eq_some (name' : List UInt8) {v : List UInt8} :
    valueOf name' (some (name, value)) = some v ↔ SameText name name' ∧ value = v := by
  rw [valueOf, Option.bind_some]
  split_ifs with h <;> simp [h]

theorem valueOf_eq_none (name' : List UInt8) :
    valueOf name' (some (name, value)) = none ↔ ¬SameText name name' := by
  rw [valueOf, Option.bind_some]
  split_ifs with h <;> simp [h]

/-- The parameter with a plain name is assigned, where there is room. -/
theorem assign_of_named {param : ItemParam} (hparam : RopCfgItem.paramNamed name = some param)
    (hname : IsText name) (hplain : PlainName ItemParam.chain ItemParam.text name)
    (hholds : ∀ param : ItemParam, SameText name param.text → param.Holds p value)
    (hos : SameText name ItemParam.supportOS.text → item.supportOS.length < 32) :
    ∃ item', item.assign p value param = .ok item' ∧
      itemStep p item (some (name, value)) = item' := by
  have hsame := (paramNamed_iff hname hplain).1 hparam
  have hassign : Safe (item.assign p value param) := by
    rw [assign_safe_iff]
    constructor
    · rintro rfl
      exact (hholds _ hsame).2
    · rintro rfl
      exact hos hsame
  obtain ⟨item', hassign⟩ := hassign
  refine ⟨item', hassign, ?_⟩
  rw [itemStep, hparam]
  dsimp only
  rw [hassign]
  rfl

/-- `SetParam` with a plain name: the parameter of this name is assigned. -/
theorem setParam_run (hname : IsText name) (hvalue : IsText value)
    (hplain : PlainName ItemParam.chain ItemParam.text name)
    (hholds : ∀ param : ItemParam, SameText name param.text → param.Holds p value)
    (hos : SameText name ItemParam.supportOS.text → item.supportOS.length < 32) :
    ∃ r, item.setParam p name value = .ok (itemStep p item (some (name, value)), r) ∧
      (itemStep p item (some (name, value))).supportOS.length = item.supportOS.length +
        (valueOf ItemParam.supportOS.text (some (name, value))).toList.length := by
  rw [RopCfgItem.setParam, hvalue.strTrimA_lineBlanks]
  rcases hparam : RopCfgItem.paramNamed name with _ | param
  · have hnone : valueOf ItemParam.supportOS.text (some (name, value)) = none := by
      rw [valueOf_eq_none, ← paramNamed_iff hname hplain, hparam]
      exact (Option.some_ne_none _).symm
    rw [itemStep, hparam, hnone]
    exact ⟨-1, rfl, rfl⟩
  · obtain ⟨item', hassign, hstep⟩ := assign_of_named hparam hname hplain hholds hos
    dsimp only
    rw [hassign, hstep, length_supportOS_assign hassign]
    refine ⟨0, rfl, ?_⟩
    by_cases hos' : param = .supportOS
    · have hsome : valueOf ItemParam.supportOS.text (some (name, value)) = some value := by
        rw [valueOf_eq_some, ← paramNamed_iff hname hplain, hparam, hos']
        exact ⟨rfl, rfl⟩
      rw [if_pos hos', hsome]
      rfl
    · have hnone : valueOf ItemParam.supportOS.text (some (name, value)) = none := by
        rw [valueOf_eq_none, ← paramNamed_iff hname hplain, hparam]
        simpa using hos'
      rw [if_neg hos', hnone]
      rfl

theorem valuesOf_cons (name' : List UInt8) :
    valuesOf name' (setting :: body) =
      (valueOf name' setting).toList ++ valuesOf name' body := by
  rw [valuesOf, List.filterMap_cons, valuesOf]
  rcases valueOf name' setting with _ | v
  · rfl
  · rfl

/-- An item reads its lines up to its `end`. The induction is on the lines, for every item with so
many entries in `SupportOS`. -/
theorem item_run (hwritten : Written (body.map (fun s => (false, Line.setting s)) ++
      (false, Line.ends) :: more) text)
    (hfuel : text.length ≤ fuel) (hplain : PlainSettings ItemParam.chain ItemParam.text body)
    (hholds : BodyHolds p body)
    (hos : item.supportOS.length + (valuesOf ItemParam.supportOS.text body).length ≤ 32) :
    ∃ rest, item.readLoop p fuel text = .ok (body.foldl (itemStep p) item, 0, rest) ∧
      Written more rest ∧ rest.length < text.length := by
  induction body generalizing item fuel text with
  | nil =>
    obtain ⟨t, stored, rest, hline, _, hread, hstored, hrest, hlen⟩ :=
      hwritten.read fun t (ht : t.length < 1022) => ht
    obtain ⟨k, rfl⟩ : ∃ k, fuel = k + 1 := ⟨fuel - 1, by omega⟩
    refine ⟨rest, ?_, hrest, hlen⟩
    rw [readLoop_succ hread, lineType_stored_ends hline hstored]
    rfl
  | cons setting body ih =>
    obtain ⟨t, stored, rest, hline, _, hread, hstored, hrest, hlen⟩ :=
      hwritten.read fun t (ht : t.length < 1022) => ht
    obtain ⟨k, rfl⟩ : ∃ k, fuel = k + 1 := ⟨fuel - 1, by omega⟩
    have hplain' : PlainSettings ItemParam.chain ItemParam.text body :=
      fun n v h => hplain n v (List.mem_cons_of_mem _ h)
    have hholds' : BodyHolds p body := fun n v h => hholds n v (List.mem_cons_of_mem _ h)
    rw [valuesOf_cons, List.length_append] at hos
    rw [readLoop_succ hread, lineType_stored_setting hline hstored, List.foldl_cons]
    rcases setting with _ | ⟨name, value⟩
    · obtain ⟨rest', hloop, hwritten', hlen'⟩ :=
        @ih item rest k hrest (by omega) hplain' hholds' (by omega)
      exact ⟨rest', hloop, hwritten', by omega⟩
    · obtain ⟨hname, hvalue⟩ := isText_of_writes hline
      have hthis := hplain name value List.mem_cons_self
      -- each line of `SupportOS` takes one of the places that are left
      have hroom : SameText name ItemParam.supportOS.text → item.supportOS.length < 32 := by
        intro hsame
        rw [(valueOf_eq_some _).2 ⟨hsame, rfl⟩, Option.toList_some, List.length_singleton] at hos
        omega
      obtain ⟨r, hset, hcount⟩ := setParam_run hname hvalue hthis
        (hholds name value List.mem_cons_self) hroom
      obtain ⟨rest', hloop, hwritten', hlen'⟩ :=
        @ih (itemStep p item (some (name, value))) rest k hrest (by omega) hplain' hholds'
          (by omega)
      refine ⟨rest', ?_, hwritten', by omega⟩
      rw [settingType, if_neg hthis.1]
      dsimp only
      rw [hset]
      exact hloop

/-- A line of the file fits its arrays, with or without its line feed. -/
theorem lineFits_stored {line : Line} (hline : line.Writes text) (hholds : HoldsLine true text)
    (hstored : stored = text ∨ stored = text ++ [LF]) :
    LineFits 128 (strTrimA (cString stored) blanks) := by
  have hnul : ∀ c ∈ text, c ≠ 0 := fun c hc => (hline.plain c hc).1
  have hstring : cString text = text := by
    rw [cString, List.takeWhile_eq_self_iff]
    simpa using hnul
  rcases hstored with rfl | rfl
  · rw [hstring]
    exact hholds.2
  · have hstring' : cString (text ++ [LF]) = text ++ [LF] := by
      rw [cString, List.takeWhile_eq_self_iff]
      simp only [List.mem_append, List.mem_singleton, decide_eq_true_eq]
      rintro c (hc | rfl)
      · exact hnul c hc
      · decide
    rw [hstring', strTrimA_append_right (by decide +kernel)]
    exact hholds.2

/-- `RopCfgFile::SetParam` with a plain name. -/
theorem setParam_file_run (hvalue : IsText value) :
    ∃ r, cfg.setParam name value = .ok (fileStep p raw cfg (.line (some (name, value))), r) := by
  rw [RopCfgFile.setParam, fileStep, hvalue.strTrimA_lineBlanks]
  rcases RopCfgFile.paramNamed name with _ | param
  · exact ⟨-1, rfl⟩
  · obtain ⟨cfg', hassign⟩ := assign_safe cfg value param
    refine ⟨0, ?_⟩
    dsimp only
    rw [hassign]
    rfl

theorem mem_items_cons {e : Entry} {es : List Entry} {i : List UInt8 × List Setting}
    (h : i ∈ items es) : i ∈ items (e :: es) := by
  rcases e with _ | _
  · exact h
  · exact List.mem_cons_of_mem _ h

theorem PlainNames.tail {e : Entry} {es : List Entry} (h : PlainNames (e :: es)) :
    PlainNames es :=
  ⟨fun n v hmem => h.globals n v (List.mem_cons_of_mem _ hmem),
    fun i hi => h.bodies i (mem_items_cons hi), fun i hi => h.items i (mem_items_cons hi)⟩

theorem Fits.tail {e : Entry} {es : List Entry} (h : Fits p (e :: es)) : Fits p es :=
  ⟨fun n v hmem => h.globals n v (List.mem_cons_of_mem _ hmem),
    fun i hi => h.names i (mem_items_cons hi), fun i hi => h.bodies i (mem_items_cons hi),
    fun i hi => h.supportOS i (mem_items_cons hi)⟩

/-- A header starts an item, which reads its lines. -/
theorem header_run {es : List Entry} (hwritten : Written (linesOf (.item name body :: es) ++ more)
      text)
    (hfuel : text.length ≤ fuel + 1) (hname : ¬Abbreviates (ascii "end") name)
    (hplain : PlainSettings ItemParam.chain ItemParam.text body) (hholds : BodyHolds p body)
    (hos : (valuesOf ItemParam.supportOS.text body).length ≤ 32) :
    ∃ rest, cfg.readLoop p raw (fuel + 1) text =
        (fileStep p raw cfg (.item name body)).readLoop p raw fuel rest ∧
      Written (linesOf es ++ more) rest ∧ rest.length ≤ fuel := by
  have hlines : linesOf (.item name body :: es) ++ more = (true, .header name) ::
      (body.map (fun s => (false, Line.setting s)) ++
        (false, Line.ends) :: (linesOf es ++ more)) := by
    simp [linesOf]
  rw [hlines] at hwritten
  obtain ⟨t, stored, rest, hline, hheld, hread, hstored, hrest, hlen⟩ :=
    Written.read hwritten fun t (ht : t.length < 511 ∧ _) => ht.1
  obtain ⟨rest', hloop, hwritten', hlen'⟩ :=
    @item_run p (freshItem (raw cfg.vItem.length) name cfg.localPath) rest body
      (linesOf es ++ more) rest.length hrest (Nat.le_refl _) hplain hholds
      (by rw [freshItem, List.length_nil, Nat.zero_add]; exact hos)
  refine ⟨rest', ?_, hwritten', by omega⟩
  have hkey : strCmpNIA CFG_ITEM_KEY CFG_ITEM_KEY CFG_ITEM_KEY.length = true := by decide
  have hitem : RopCfgFile.readItem p (raw cfg.vItem.length) cfg name rest =
      .ok (itemOf p (raw cfg.vItem.length) cfg.localPath name body, rest') := by
    rw [readItem_eq, RopCfgItem.readAndInit, hloop]
    rfl
  rw [file_readLoop_succ hread (lineFits_stored hline hheld hstored),
    lineType_stored_header hline hstored, if_neg hname]
  dsimp only
  rw [if_pos hkey, hitem]
  rfl

/-- The loop of the file goes on behind the parts that it has read. The induction is on the parts,
for every configuration. -/
theorem file_run (es : List Entry) (hwritten : Written (linesOf es ++ more) text)
    (hfuel : text.length ≤ fuel) (hplain : PlainNames es) (hfits : Fits p es) :
    ∃ k rest, cfg.readLoop p raw fuel text =
        (es.foldl (fileStep p raw) cfg).readLoop p raw k rest ∧
      Written more rest ∧ rest.length ≤ k := by
  induction es generalizing cfg text fuel with
  | nil => exact ⟨fuel, text, rfl, hwritten, hfuel⟩
  | cons e es ih =>
    rw [List.foldl_cons]
    rcases e with setting | ⟨name, body⟩
    · obtain ⟨t, stored, rest, hline, hheld, hread, hstored, hrest, hlen⟩ :=
        Written.read hwritten fun t (ht : t.length < 511 ∧ _) => ht.1
      obtain ⟨k, rfl⟩ : ∃ k, fuel = k + 1 := ⟨fuel - 1, by omega⟩
      rw [file_readLoop_succ hread (lineFits_stored hline hheld hstored),
        lineType_stored_setting hline hstored]
      rcases setting with _ | ⟨name, value⟩
      · exact ih hrest (by omega) hplain.tail hfits.tail
      · obtain ⟨_, hvalue⟩ := isText_of_writes hline
        obtain ⟨r, hset⟩ := @setParam_file_run p cfg raw value name hvalue
        rw [settingType, if_neg (hplain.globals name value List.mem_cons_self).1]
        dsimp only
        rw [hset]
        exact ih hrest (by omega) hplain.tail hfits.tail
    · have hlen := hwritten.length_pos
      obtain ⟨k, rfl⟩ : ∃ k, fuel = k + 1 := ⟨fuel - 1, by omega⟩
      obtain ⟨rest, hloop, hrest, hlen⟩ := @header_run p cfg raw text name body more k es hwritten
        hfuel (hplain.items (name, body) List.mem_cons_self)
        (hplain.bodies (name, body) List.mem_cons_self)
        (hfits.bodies (name, body) List.mem_cons_self)
        (hfits.supportOS (name, body) List.mem_cons_self)
      rw [hloop]
      exact ih hrest hlen hplain.tail hfits.tail

/-! ## What the parameters hold -/

theorem Written.writes {ls : List (Bool × Line)} (h : Written ls text) {l : Bool × Line}
    (hl : l ∈ ls) : ∃ t, l.2.Writes t := by
  induction h with
  | nil => cases hl
  | last hline _ _ =>
    rw [List.mem_singleton.1 hl]
    exact ⟨_, hline⟩
  | cons hline _ _ ih =>
    rcases List.mem_cons.1 hl with rfl | hl
    · exact ⟨_, hline⟩
    · exact ih hl

/-- The names and the values in lines are texts. -/
def Texts (settings : List Setting) : Prop :=
  ∀ name value, some (name, value) ∈ settings →
    IsText name ∧ 61 ∉ name ∧ IsText value ∧ value ≠ []

theorem texts_globals {es : List Entry} (h : Written (linesOf es) text) : Texts (globals es) := by
  intro name value hmem
  obtain ⟨e, he, heq⟩ := List.mem_map.1 hmem
  rcases e with setting | _
  · obtain ⟨t, hline⟩ := h.writes (List.mem_flatMap.2 ⟨_, he, List.mem_singleton_self _⟩)
    rw [show setting = some (name, value) from heq] at hline
    obtain ⟨hname, hdelim, hvalue, hne, _⟩ := hline
    exact ⟨hname, hdelim, hvalue, hne⟩
  · cases heq

theorem mem_items {es : List Entry} {i : List UInt8 × List Setting} (h : i ∈ items es) :
    Entry.item i.1 i.2 ∈ es := by
  obtain ⟨e, he, heq⟩ := List.mem_filterMap.1 h
  rcases e with _ | _
  · cases heq
  · cases heq
    exact he

theorem texts_bodies {es : List Entry} (h : Written (linesOf es) text)
    {i : List UInt8 × List Setting} (hi : i ∈ items es) : Texts i.2 := by
  intro name value hmem
  have hline : (false, Line.setting (some (name, value))) ∈ linesOf es := by
    refine List.mem_flatMap.2 ⟨_, mem_items hi, ?_⟩
    exact List.mem_append_left _ (List.mem_cons_of_mem _ (List.mem_map_of_mem hmem))
  obtain ⟨t, hname, hdelim, hvalue, hne, _⟩ := h.writes hline
  exact ⟨hname, hdelim, hvalue, hne⟩

/-- A line of an item sets the parameter of its name, and no other. -/
theorem get_itemStep (hname : IsText name)
    (hplain : PlainName ItemParam.chain ItemParam.text name)
    (hholds : ∀ param : ItemParam, SameText name param.text → param.Holds p value)
    (hos : SameText name ItemParam.supportOS.text → item.supportOS.length < 32)
    (param : ItemParam) :
    param.get (itemStep p item (some (name, value))) =
      if SameText name param.text then
        if param = .localPath then
          .path value (RopCfgItem.localPathOf p value)
            (overlay item.serverPath (RopCfgItem.pathOf value))
        else param.held p value
      else param.get item := by
  rcases hparam : RopCfgItem.paramNamed name with _ | other
  · have hnot : ¬SameText name param.text := by
      rw [← paramNamed_iff hname hplain, hparam]
      exact nofun
    rw [if_neg hnot, itemStep, hparam]
  · obtain ⟨item', hassign, hstep⟩ := assign_of_named hparam hname hplain hholds hos
    rw [hstep]
    by_cases hthis : SameText name param.text
    · have heq : some other = some param := by
        rw [← hparam]
        exact (paramNamed_iff hname hplain).2 hthis
      cases heq
      rw [if_pos hthis, get_assign hassign (hholds _ hthis)]
      rfl
    · rw [if_neg hthis, get_assign_of_ne hassign]
      rintro rfl
      exact hthis ((paramNamed_iff hname hplain).1 hparam)

/-- What holds of an item and the lines that it has still to read. -/
structure ItemInv (p : Process) (item : RopCfgItem) (body : List Setting) : Prop where
  texts : Texts body
  plain : PlainSettings ItemParam.chain ItemParam.text body
  holds : BodyHolds p body
  supportOS : item.supportOS.length + (valuesOf ItemParam.supportOS.text body).length ≤ 32

/-- One line. -/
theorem ItemInv.step (h : ItemInv p item (setting :: body)) :
    ItemInv p (itemStep p item setting) body ∧
      ∀ param : ItemParam, param.get (itemStep p item setting) =
        (valueOf param.text setting).elim (param.get item) fun value =>
          if param = .localPath then
            .path value (RopCfgItem.localPathOf p value)
              (overlay item.serverPath (RopCfgItem.pathOf value))
          else param.held p value := by
  have htexts : Texts body := fun n v hmem => h.texts n v (List.mem_cons_of_mem _ hmem)
  have hplain : PlainSettings ItemParam.chain ItemParam.text body :=
    fun n v hmem => h.plain n v (List.mem_cons_of_mem _ hmem)
  have hholds : BodyHolds p body := fun n v hmem => h.holds n v (List.mem_cons_of_mem _ hmem)
  have hos := h.supportOS
  rw [valuesOf_cons, List.length_append, ← Nat.add_assoc] at hos
  rcases setting with _ | ⟨name, value⟩
  · exact ⟨⟨htexts, hplain, hholds, hos⟩, fun _ => rfl⟩
  · obtain ⟨hname, _, hvalue, _⟩ := h.texts name value List.mem_cons_self
    have hthis := h.plain name value List.mem_cons_self
    have hroom := h.holds name value List.mem_cons_self
    have hlt : SameText name ItemParam.supportOS.text → item.supportOS.length < 32 := by
      intro hsame
      rw [(valueOf_eq_some _).2 ⟨hsame, rfl⟩, Option.toList_some, List.length_singleton] at hos
      omega
    obtain ⟨_, _, hcount⟩ := setParam_run hname hvalue hthis hroom hlt
    refine ⟨⟨htexts, hplain, hholds, hcount ▸ hos⟩, fun param => ?_⟩
    rw [get_itemStep hname hthis hroom hlt param]
    by_cases hsame : SameText name param.text
    · rw [if_pos hsame, (valueOf_eq_some _).2 ⟨hsame, rfl⟩]
      rfl
    · rw [if_neg hsame, (valueOf_eq_none _).2 hsame]
      rfl

/-- The last line for a parameter is what it holds, the paths aside. -/
theorem ItemInv.get_eq (h : ItemInv p item body) {param : ItemParam} (hne : param ≠ .localPath) :
    param.get (body.foldl (itemStep p) item) =
      (lastValue param.text body).elim (param.get item) (param.held p) := by
  refine get_foldl param.get (itemStep p) (valueOf param.text) (param.held p) (ItemInv p)
    (fun item setting body h => ?_) body item h
  obtain ⟨hinv, hget⟩ := h.step
  refine ⟨hinv, ?_⟩
  rw [hget]
  simp only [if_neg hne]

/-- The paths of an item are those of the last line, but for the end of `ServerPath`. -/
theorem ItemInv.get_localPath (h : ItemInv p item body) :
    ItemParam.localPath.get (body.foldl (itemStep p) item) =
      (lastValue ItemParam.localPath.text body).elim (ItemParam.localPath.get item) fun value =>
        .path value (RopCfgItem.localPathOf p value)
          (((valuesOf ItemParam.localPath.text body).map RopCfgItem.pathOf).foldl overlay
            item.serverPath) := by
  induction body generalizing item with
  | nil => rfl
  | cons setting body ih =>
    obtain ⟨hinv, hget⟩ := h.step
    have hthis := hget .localPath
    rw [List.foldl_cons, ih hinv, hthis]
    simp only [lastValue, valuesOf_cons]
    rcases hvalue : valueOf ItemParam.localPath.text setting with _ | value
    · rw [hvalue] at hthis
      have hserver : (itemStep p item setting).serverPath = item.serverPath := by
        simp only [ItemParam.get, Option.elim_none, Held.path.injEq] at hthis
        exact hthis.2.2
      rw [hserver]
      rfl
    · rw [hvalue] at hthis
      have hserver : (itemStep p item setting).serverPath =
          overlay item.serverPath (RopCfgItem.pathOf value) := by
        simp only [ItemParam.get, Option.elim_some, if_true, Held.path.injEq] at hthis
        exact hthis.2.2
      rw [hserver]
      rcases hlast : (valuesOf ItemParam.localPath.text body).getLast? with _ | last
      · rw [List.getLast?_eq_none_iff] at hlast
        rw [hlast]
        rfl
      · rw [Option.toList_some, List.singleton_append, List.getLast?_cons, hlast]
        rfl

/-- No branch of `SetParam` names the item anew. -/
theorem name_assign {param : ItemParam} (h : item.assign p value param = .ok item') :
    item'.name = item.name := by
  cases param with
  | localPath => rw [setLocalPath_eq h]
  | fileType | downloadMask | sizeOnServer =>
    cases h
    rfl
  | _ =>
    simp only [RopCfgItem.assign, bind_eq_ok] at h
    obtain ⟨_, _, hitem⟩ := h
    cases hitem
    rfl

theorem name_itemOf (raw : RopCfgItem) (tmpPath name : List UInt8) (body : List Setting) :
    (itemOf p raw tmpPath name body).name = strCpyNA name MAX_NAME_LEN := by
  have hfold (item : RopCfgItem) : (body.foldl (itemStep p) item).name = item.name := by
    induction body generalizing item with
    | nil => rfl
    | cons setting body ih =>
      rw [List.foldl_cons, ih]
      rcases setting with _ | ⟨name, value⟩
      · rfl
      · rw [itemStep]
        rcases RopCfgItem.paramNamed name with _ | param
        · rfl
        · dsimp only
          rcases hassign : item.assign p value param with _ | item'
          · rfl
          · exact name_assign hassign
  rw [itemOf, hfold]
  rfl

/-- The items of the file, in their order. -/
theorem vItem_foldl (es : List Entry) (cfg : RopCfgFile) :
    ∃ its, (es.foldl (fileStep p raw) cfg).vItem = cfg.vItem ++ its ∧
      List.Forall₂ (fun i item => ∃ raw tmpPath, item = itemOf p raw tmpPath i.1 i.2) (items es)
        its := by
  induction es generalizing cfg with
  | nil => exact ⟨[], (List.append_nil _).symm, .nil⟩
  | cons e es ih =>
    rw [List.foldl_cons]
    rcases e with setting | ⟨name, body⟩
    · obtain ⟨its, hits, hall⟩ := ih (fileStep p raw cfg (.line setting))
      have hsame : (fileStep p raw cfg (.line setting)).vItem = cfg.vItem := by
        rcases setting with _ | ⟨name, value⟩
        · rfl
        · rw [fileStep]
          rcases RopCfgFile.paramNamed name with _ | param
          · rfl
          · dsimp only
            rcases hassign : cfg.assign value param with _ | cfg'
            · rfl
            · exact vItem_assign hassign
      rw [hsame] at hits
      exact ⟨its, hits, hall⟩
    · obtain ⟨its, hits, hall⟩ := ih (fileStep p raw cfg (.item name body))
      refine ⟨itemOf p (raw cfg.vItem.length) cfg.localPath name body :: its, ?_,
        .cons ⟨_, _, rfl⟩ hall⟩
      rw [hits, fileStep]
      dsimp only
      rw [List.append_assoc, List.singleton_append]

/-- A global line sets the parameter of its name, and no other; an item sets none. -/
theorem get_fileStep {e : Entry} {es : List Entry} (htexts : Texts (globals (e :: es)))
    (hplain : PlainNames (e :: es)) (hfits : Fits p (e :: es)) (param : FileParam) :
    param.get (fileStep p raw cfg e) =
      (valueOf param.text e.setting).elim (param.get cfg) param.held := by
  rcases e with (_ | ⟨name, value⟩) | ⟨name, body⟩
  · rfl
  · obtain ⟨hname, _, _, _⟩ := htexts name value List.mem_cons_self
    have hthis := hplain.globals name value List.mem_cons_self
    have hroom := hfits.globals name value List.mem_cons_self
    dsimp only [Entry.setting]
    rw [fileStep]
    rcases hparam : RopCfgFile.paramNamed name with _ | other
    · have hnot : ¬SameText name param.text := by
        rw [← paramNamed_file_iff hname hthis, hparam]
        exact nofun
      rw [(valueOf_eq_none _).2 hnot]
      rfl
    · obtain ⟨cfg', hassign⟩ := assign_safe cfg value other
      dsimp only
      rw [hassign, Except.toOption, Option.getD_some]
      by_cases hsame : SameText name param.text
      · have heq : some other = some param := by
          rw [← hparam]
          exact (paramNamed_file_iff hname hthis).2 hsame
        cases heq
        rw [(valueOf_eq_some _).2 ⟨hsame, rfl⟩, get_assign_file hassign (hroom _ hsame)]
        rfl
      · rw [(valueOf_eq_none _).2 hsame, get_assign_file_of_ne hassign]
        · rfl
        · rintro rfl
          exact hsame ((paramNamed_file_iff hname hthis).1 hparam)
  · cases param <;> rfl

/-- The last global line for a parameter is what it holds. -/
theorem get_foldl_file {es : List Entry} (htexts : Texts (globals es)) (hplain : PlainNames es)
    (hfits : Fits p es) (param : FileParam) :
    param.get (es.foldl (fileStep p raw) cfg) =
      (lastValue param.text (globals es)).elim (param.get cfg) param.held := by
  have hlast : lastValue param.text (globals es) =
      (es.filterMap fun e => valueOf param.text e.setting).getLast? := by
    rw [lastValue, valuesOf, globals, List.filterMap_map]
    rfl
  rw [hlast]
  refine get_foldl param.get (fileStep p raw) (fun e => valueOf param.text e.setting) param.held
    (fun _ es => Texts (globals es) ∧ PlainNames es ∧ Fits p es) (fun cfg e es h => ?_) es cfg
    ⟨htexts, hplain, hfits⟩
  obtain ⟨htexts, hplain, hfits⟩ := h
  exact ⟨⟨fun n v hmem => htexts n v (List.mem_cons_of_mem _ hmem), hplain.tail, hfits.tail⟩,
    get_fileStep htexts hplain hfits param⟩

/-! ## Loading -/

/-- The paths of an item are no longer than its last one. -/
def PathsGrow (body : List Setting) : Prop :=
  ∀ last, lastValue ItemParam.localPath.text body = some last →
    ∀ value ∈ valuesOf ItemParam.localPath.text body,
      (RopCfgItem.pathOf value).length ≤ (RopCfgItem.pathOf last).length

/-- A line that names no parameter changes none, and is not taken for an `end`. -/
structure Ignored {κ σ : Type} (text : κ → List UInt8)
    (setParam : σ → List UInt8 → List UInt8 → Except Buffer (σ × ℤ)) (settings : List Setting) :
    Prop where
  same : ∀ name value, some (name, value) ∈ settings → (∀ param, ¬SameText name (text param)) →
    ∀ s, ∃ r, setParam s name value = .ok (s, r)
  goesOn : ∀ name value, some (name, value) ∈ settings → (∀ param, ¬SameText name (text param)) →
    ∀ t, (Line.setting (some (name, value))).Writes t →
      ∀ size, parseLine size (cString t) ≠ .ok .ends

/-- A configuration is loaded as it is written: the items in their order, each parameter as in the
last line for it, and nothing from the lines with other names. -/
structure LoadsAsWritten (p : Process) (raw : ℕ → RopCfgItem) (cfg : RopCfgFile)
    (es : List Entry) (text : List UInt8) : Prop where
  loads : ∃ cfg', cfg.readAndInit p raw text = .ok (cfg', 0) ∧
    List.Forall₂ (fun i item => item.name = i.1 ∧ ∀ (param : ItemParam) (value : List UInt8),
      lastValue param.text i.2 = some value → param.get item = param.held p value)
      (items es) cfg'.vItem ∧
    ∀ (param : FileParam) (value : List UInt8),
      lastValue param.text (globals es) = some value → param.get cfg' = param.held value
  globals : Ignored FileParam.text RopCfgFile.setParam (globals es)
  bodies : ∀ i ∈ items es, Ignored ItemParam.text (RopCfgItem.setParam p) i.2

/-- A name of a parameter is plain. -/
theorem plainName_of_sameText {κ : Type} {table : List κ} {text : κ → List UInt8} {k : κ}
    (htable : Unambiguous table text) (hends : ∀ k ∈ table, ¬Abbreviates (ascii "end") (text k))
    (hk : k ∈ table) (h : SameText name (text k)) : PlainName table text name := by
  constructor
  · intro hend
    apply hends k hk
    rwa [Abbreviates, ← h]
  · intro k' hk' habbr
    have hname : Abbreviates (text k) (text k') := by
      rwa [Abbreviates, ← h]
    rwa [← htable k hk k' hk' hname]

/-- Lines are ignored where they should be if and only if their names are plain. -/
theorem ignored_iff {κ σ : Type} {table : List κ} {text : κ → List UInt8}
    {setParam : σ → List UInt8 → List UInt8 → Except Buffer (σ × ℤ)} {settings : List Setting}
    (htable : Unambiguous table text) (hmem : ∀ k, k ∈ table)
    (hends : ∀ k ∈ table, ¬Abbreviates (ascii "end") (text k)) (htexts : Texts settings)
    (hnone : ∀ s name value, IsText name → byAbbrev table text name = none →
      setParam s name value = .ok (s, -1))
    (hsome : ∀ name value k, IsText name → byAbbrev table text name = some k →
      ∃ s, ∀ r, setParam s name value ≠ .ok (s, r)) :
    Ignored text setParam settings ↔ PlainSettings table text settings := by
  constructor
  · intro h name value hline
    obtain ⟨hname, hdelim, hvalue, hne⟩ := htexts name value hline
    by_cases hknown : ∃ k, SameText name (text k)
    · obtain ⟨k, hsame⟩ := hknown
      exact plainName_of_sameText htable hends (hmem k) hsame
    · rw [not_exists] at hknown
      constructor
      · intro hend
        -- the line without pads
        have hwrites : (Line.setting (some (name, value))).Writes
            ([] ++ ((name ++ ([] ++ 61 :: ([] ++ value))) ++ [])) :=
          ⟨hname, hdelim, hvalue, hne, [], [], [], [], List.forall_mem_nil _,
            List.forall_mem_nil _, List.forall_mem_nil _, List.forall_mem_nil _, fun _ => rfl, rfl⟩
        apply h.goesOn name value hline hknown _ hwrites _
        refine parseLine_eq_ok.2 ⟨lineFits_of_length (Nat.le_refl _), ?_⟩
        rw [lineType_stored_setting hwrites (.inl rfl), settingType, if_pos hend]
      · intro k hk habbr
        exfalso
        rcases hfind : byAbbrev table text name with _ | k'
        · exact byAbbrev_eq_none_iff.1 hfind k hk habbr
        · obtain ⟨s, hs⟩ := hsome name value k' hname hfind
          obtain ⟨r, hr⟩ := h.same name value hline hknown s
          exact hs r hr
  · intro hplain
    constructor
    · intro name value hline hother s
      obtain ⟨hname, _, _, _⟩ := htexts name value hline
      refine ⟨-1, hnone s name value hname ?_⟩
      rw [byAbbrev_eq_none_iff]
      intro k hk habbr
      exact hother k ((hplain name value hline).2 k hk habbr)
    · intro name value hline _ t ht size hparse
      have htype := (parseLine_eq_ok.1 hparse).2
      rw [lineType_stored_setting ht (.inl rfl), settingType,
        if_neg (hplain name value hline).1] at htype
      cases htype

/-- An item that no value has been assigned to. -/
def otherItem (value : List UInt8) : RopCfgItem :=
  let text : List UInt8 := List.replicate 400 1
  let number : Int32 := if atoi value = 0 then 1 else 0
  let size : UInt32 := if (atoi value).toUInt32 = 0 then 1 else 0
  ⟨false, text, text, text, text, text, text, text, text, text, text, text, text, text, number, [],
    size, size⟩

/-- A configuration that no value has been assigned to. -/
def otherFile (value : List UInt8) : RopCfgFile :=
  let text : List UInt8 := List.replicate 400 1
  let number : Int32 := if atoi value = 0 then 1 else 0
  let size : UInt32 := if (atoi value).toUInt32 = 0 then 1 else 0
  ⟨[], text, text, text, text, number, text, text, number, text, number, text, size, text, text,
    text, text, text⟩

theorem strCpyNA_ne_replicate {n : ℕ} (hn : n ≤ 400) :
    strCpyNA value n ≠ List.replicate 400 1 := by
  intro h
  have hlen := congrArg List.length h
  rw [strCpyNA, List.length_take, List.length_replicate] at hlen
  omega

/-- A number that is different from the one it is chosen for. -/
theorem ite_ne_self {α : Type} [DecidableEq α] {a b : α} (hab : b ≠ a) (x : α) :
    (if x = a then b else a) ≠ x := by
  split_ifs with hx
  · rw [hx]
    exact hab
  · exact Ne.symm hx

/-- Every branch of `SetParam` changes some item. -/
theorem assign_otherItem (p : Process) (value : List UInt8) (param : ItemParam) :
    (otherItem value).assign p value param ≠ .ok (otherItem value) := by
  have htext := @strCpyNA_ne_replicate value MAX_NAME_LEN (by decide)
  have hdigest := @strCpyNA_ne_replicate value (MD5_DIGEST_LENGTH * 2 + 1) (by decide)
  intro h
  cases param with
  | localPath => exact htext (congrArg RopCfgItem.orgLocalPath (setLocalPath_eq h)).symm
  | fileType =>
    exact ite_ne_self (by decide) _ (congrArg RopCfgItem.iFileType (Except.ok.inj h)).symm
  | downloadMask =>
    exact ite_ne_self (by decide) _ (congrArg RopCfgItem.downloadMask (Except.ok.inj h)).symm
  | sizeOnServer =>
    exact ite_ne_self (by decide) _ (congrArg RopCfgItem.sizeOnServer (Except.ok.inj h)).symm
  | supportOS =>
    simp only [RopCfgItem.assign, bind_eq_ok] at h
    obtain ⟨_, _, hitem⟩ := h
    exact List.concat_ne_nil _ _ (congrArg RopCfgItem.supportOS (Except.ok.inj hitem))
  | md5 =>
    rw [RopCfgItem.assign, copyText_self (by decide)] at h
    exact hdigest (congrArg RopCfgItem.md5 (Except.ok.inj h))
  | _ =>
    rw [RopCfgItem.assign, copyText_self (by decide)] at h
    have hitem := Except.ok.inj h
    simp only [otherItem, RopCfgItem.mk.injEq, htext, and_false, false_and] at hitem

/-- Every branch of `SetParam` changes some configuration. -/
theorem assign_otherFile (value : List UInt8) (param : FileParam) :
    (otherFile value).assign value param ≠ .ok (otherFile value) := by
  have htext := @strCpyNA_ne_replicate value MAX_NAME_LEN (by decide)
  have hmsg := @strCpyNA_ne_replicate value (MAX_NAME_LEN * 10) (by decide)
  intro h
  cases param with
  | downloadmask =>
    exact ite_ne_self (by decide) _ (congrArg RopCfgFile.downloadmask (Except.ok.inj h)).symm
  | httpServerDownloadPort =>
    exact ite_ne_self (by decide) _ (congrArg RopCfgFile.serverDownloadPort (Except.ok.inj h)).symm
  | serverServicePort =>
    exact ite_ne_self (by decide) _ (congrArg RopCfgFile.serverServicePort (Except.ok.inj h)).symm
  | sleepBeforeDial =>
    exact ite_ne_self (by decide) _ (congrArg RopCfgFile.dialSleep (Except.ok.inj h)).symm
  | _ =>
    rw [RopCfgFile.assign, copyText_self (by decide)] at h
    have hcfg := Except.ok.inj h
    simp only [otherFile, RopCfgFile.mk.injEq, htext, hmsg, and_false, false_and] at hcfg

theorem ignored_item_iff {settings : List Setting} (htexts : Texts settings) :
    Ignored ItemParam.text (RopCfgItem.setParam p) settings ↔
      PlainSettings ItemParam.chain ItemParam.text settings := by
  apply ignored_iff ItemParam.unambiguous ItemParam.mem_chain (by decide) htexts
  · intro item name value hname hnone
    rw [RopCfgItem.setParam, RopCfgItem.paramNamed, hname.strTrimA_lineBlanks, hnone]
  · intro name value param hname hsome
    refine ⟨otherItem (strTrimA value lineBlanks), fun r h => ?_⟩
    rw [RopCfgItem.setParam, RopCfgItem.paramNamed, hname.strTrimA_lineBlanks, hsome] at h
    obtain ⟨item', hassign, hret⟩ := bind_eq_ok.1 h
    cases hret
    exact assign_otherItem p _ param hassign

theorem ignored_file_iff {settings : List Setting} (htexts : Texts settings) :
    Ignored FileParam.text RopCfgFile.setParam settings ↔
      PlainSettings FileParam.chain FileParam.text settings := by
  apply ignored_iff FileParam.unambiguous FileParam.mem_chain (by decide) htexts
  · intro cfg name value hname hnone
    rw [RopCfgFile.setParam, RopCfgFile.paramNamed, hname.strTrimA_lineBlanks, hnone]
  · intro name value param hname hsome
    refine ⟨otherFile (strTrimA value lineBlanks), fun r h => ?_⟩
    rw [RopCfgFile.setParam, RopCfgFile.paramNamed, hname.strTrimA_lineBlanks, hsome] at h
    obtain ⟨cfg', hassign, hret⟩ := bind_eq_ok.1 h
    cases hret
    exact assign_otherFile _ param hassign

/-- What plain names come to: the whole text is read. -/
theorem readAndInit_of_plain {es : List Entry} (hwritten : Written (linesOf es) text)
    (hplain : PlainNames es) (hfits : Fits p es) :
    cfg.readAndInit p raw text = .ok (es.foldl (fileStep p raw) cfg, 0) := by
  obtain ⟨k, rest, hloop, hrest, _⟩ := @file_run p cfg raw text [] text.length es
    (by rwa [List.append_nil]) (Nat.le_refl _) hplain hfits
  cases hrest
  rw [RopCfgFile.readAndInit, hloop]
  rcases k with _ | k
  · rfl
  · rw [RopCfgFile.readLoop]
    rfl

/-- An item holds what its lines say if and only if no path is longer than the last. -/
theorem itemOf_holds_iff {raw' : RopCfgItem} {tmpPath : List UInt8} (htexts : Texts body)
    (hplain : PlainSettings ItemParam.chain ItemParam.text body) (hholds : BodyHolds p body)
    (hos : (valuesOf ItemParam.supportOS.text body).length ≤ 32) :
    (∀ (param : ItemParam) (value : List UInt8), lastValue param.text body = some value →
      param.get (itemOf p raw' tmpPath name body) = param.held p value) ↔ PathsGrow body := by
  have hinv : ItemInv p (freshItem raw' name tmpPath) body :=
    ⟨htexts, hplain, hholds, by rw [freshItem, List.length_nil, Nat.zero_add]; exact hos⟩
  have hpath (value : List UInt8) (hlast : lastValue ItemParam.localPath.text body = some value) :
      ItemParam.localPath.get (itemOf p raw' tmpPath name body) =
          ItemParam.localPath.held p value ↔
        ∀ v ∈ valuesOf ItemParam.localPath.text body,
          (RopCfgItem.pathOf v).length ≤ (RopCfgItem.pathOf value).length := by
    have hmap : ((valuesOf ItemParam.localPath.text body).map RopCfgItem.pathOf).getLast? =
        some (RopCfgItem.pathOf value) := by
      rw [List.getLast?_map]
      exact congrArg (Option.map RopCfgItem.pathOf) hlast
    rw [itemOf, hinv.get_localPath, hlast, Option.elim_some, ItemParam.held, Held.path.injEq,
      eq_self, eq_self, true_and, true_and]
    rw [show (freshItem raw' name tmpPath).serverPath = [] from rfl,
      foldl_overlay_eq_iff _ _ hmap, List.forall_mem_map]
  constructor
  · intro h last hlast
    exact (hpath last hlast).1 (h .localPath last hlast)
  · intro h param value hlast
    by_cases hparam : param = .localPath
    · subst hparam
      exact (hpath value hlast).2 (h value hlast)
    · rw [itemOf, hinv.get_eq hparam, hlast, Option.elim_some]

theorem plainNames_of_subset {pre es : List Entry} (hsub : ∀ e ∈ pre, e ∈ es)
    (hglobals : PlainSettings FileParam.chain FileParam.text (globals es))
    (hbodies : ∀ i ∈ items es, PlainSettings ItemParam.chain ItemParam.text i.2)
    (hitems : ∀ i ∈ items pre, ¬Abbreviates (ascii "end") i.1) : PlainNames pre := by
  refine ⟨fun n v hmem => ?_, fun i hi => ?_, hitems⟩
  · obtain ⟨e, he, heq⟩ := List.mem_map.1 hmem
    exact hglobals n v (List.mem_map.2 ⟨e, hsub e he, heq⟩)
  · obtain ⟨e, he, heq⟩ := List.mem_filterMap.1 hi
    exact hbodies i (List.mem_filterMap.2 ⟨e, hsub e he, heq⟩)

theorem fits_of_subset {pre es : List Entry} (hsub : ∀ e ∈ pre, e ∈ es) (h : Fits p es) :
    Fits p pre := by
  have hitems : ∀ i ∈ items pre, i ∈ items es := by
    intro i hi
    obtain ⟨e, he, heq⟩ := List.mem_filterMap.1 hi
    exact List.mem_filterMap.2 ⟨e, hsub e he, heq⟩
  refine ⟨fun n v hmem => ?_, fun i hi => h.names i (hitems i hi),
    fun i hi => h.bodies i (hitems i hi), fun i hi => h.supportOS i (hitems i hi)⟩
  obtain ⟨e, he, heq⟩ := List.mem_map.1 hmem
  exact h.globals n v (List.mem_map.2 ⟨e, hsub e he, heq⟩)

/-- A header whose item has a name that begins with `end` ends the file. -/
theorem readAndInit_of_end {pre post : List Entry}
    (hwritten : Written (linesOf (pre ++ .item name body :: post)) text)
    (hplain : PlainNames pre) (hfits : Fits p pre) (hname : Abbreviates (ascii "end") name) :
    cfg.readAndInit p raw text = .ok (pre.foldl (fileStep p raw) cfg, 0) := by
  have hlines : linesOf (pre ++ .item name body :: post) = linesOf pre ++
      (true, .header name) :: (body.map (fun s => (false, Line.setting s)) ++
        (false, Line.ends) :: linesOf post) := by
    simp [linesOf]
  rw [hlines] at hwritten
  obtain ⟨k, rest, hloop, hrest, hlen⟩ := @file_run p cfg raw text _ text.length pre hwritten
    (Nat.le_refl _) hplain hfits
  obtain ⟨t, stored, rest', hline, hheld, hread, hstored, _, hlen'⟩ :=
    Written.read hrest fun t (ht : t.length < 511 ∧ _) => ht.1
  obtain ⟨k, rfl⟩ : ∃ n, k = n + 1 := ⟨k - 1, by omega⟩
  rw [RopCfgFile.readAndInit, hloop, file_readLoop_succ hread (lineFits_stored hline hheld hstored),
    lineType_stored_header hline hstored, if_pos hname]

/-- An item with such a header. -/
def Entry.endsEarly : Entry → Bool
  | .line _ => false
  | .item name _ => Abbreviates (ascii "end") name

/-- A file that is loaded as it is written has no such header. -/
theorem items_plain_of_loads {es : List Entry} (hcfg : cfg.vItem = [])
    (hwritten : Written (linesOf es) text) (hfits : Fits p es)
    (hglobals : PlainSettings FileParam.chain FileParam.text (globals es))
    (hbodies : ∀ i ∈ items es, PlainSettings ItemParam.chain ItemParam.text i.2)
    (h : LoadsAsWritten p raw cfg es text) : ∀ i ∈ items es, ¬Abbreviates (ascii "end") i.1 := by
  intro i hi hend
  -- the first such header
  have hsome : (es.find? Entry.endsEarly).isSome := by
    rw [List.find?_isSome]
    exact ⟨.item i.1 i.2, mem_items hi, by simpa [Entry.endsEarly] using hend⟩
  obtain ⟨e, hfind⟩ := Option.isSome_iff_exists.1 hsome
  obtain ⟨hends, pre, post, rfl, hpre⟩ := List.find?_eq_some_iff_append.1 hfind
  rcases e with _ | ⟨name, body⟩
  · cases hends
  · have hsub : ∀ e ∈ pre, e ∈ pre ++ .item name body :: post :=
      fun e he => List.mem_append_left _ he
    have hitems : ∀ i ∈ items pre, ¬Abbreviates (ascii "end") i.1 := by
      intro i hi hend
      have hnot := hpre _ (mem_items hi)
      simp [Entry.endsEarly, hend] at hnot
    have hrun := @readAndInit_of_end p cfg raw text name body pre post hwritten
      (plainNames_of_subset hsub hglobals hbodies hitems) (fits_of_subset hsub hfits)
      (by simpa [Entry.endsEarly] using hends)
    obtain ⟨cfg', hread, hall, _⟩ := h.loads
    rw [hrun] at hread
    cases hread
    obtain ⟨its, hits, hall'⟩ := @vItem_foldl p raw pre cfg
    rw [hits, hcfg, List.nil_append] at hall
    have hlen := hall.length_eq
    rw [← hall'.length_eq, items, List.filterMap_append, List.length_append, ← items] at hlen
    simp at hlen

theorem exists_of_forall₂ {α β : Type*} {R S : α → β → Prop} {as : List α} {bs : List β} {a : α}
    (hR : List.Forall₂ R as bs) (hS : List.Forall₂ S as bs) (ha : a ∈ as) :
    ∃ b, R a b ∧ S a b := by
  induction hR with
  | nil => cases ha
  | cons hab _ ih =>
    rcases hS with _ | ⟨hab', hS⟩
    rcases List.mem_cons.1 ha with rfl | ha
    · exact ⟨_, hab, hab'⟩
    · exact ih hS ha

/-- A configuration is loaded as it is written if and only if no name in its lines begins with
`end` or is a proper beginning of the name of a parameter, no item has a name that begins with
`end`, and no path of an item is longer than its last one. -/
theorem loadsAsWritten_iff (p : Process) (raw : ℕ → RopCfgItem) (cfg : RopCfgFile)
    (hcfg : cfg.vItem = []) (es : List Entry) (text : List UInt8)
    (hwritten : Written (linesOf es) text) (hfits : Fits p es) :
    LoadsAsWritten p raw cfg es text ↔ PlainNames es ∧ ∀ i ∈ items es, PathsGrow i.2 := by
  constructor
  · intro h
    have hglobals := (ignored_file_iff (texts_globals hwritten)).1 h.globals
    have hbodies : ∀ i ∈ items es, PlainSettings ItemParam.chain ItemParam.text i.2 :=
      fun i hi => (ignored_item_iff (texts_bodies hwritten hi)).1 (h.bodies i hi)
    have hplain : PlainNames es :=
      ⟨hglobals, hbodies, items_plain_of_loads hcfg hwritten hfits hglobals hbodies h⟩
    refine ⟨hplain, fun i hi => ?_⟩
    obtain ⟨cfg', hread, hall, _⟩ := h.loads
    rw [readAndInit_of_plain hwritten hplain hfits] at hread
    cases hread
    obtain ⟨its, hits, hall'⟩ := @vItem_foldl p raw es cfg
    rw [hits, hcfg, List.nil_append] at hall
    obtain ⟨item, ⟨raw', tmpPath, rfl⟩, _, hheld⟩ := exists_of_forall₂ hall' hall hi
    exact (itemOf_holds_iff (texts_bodies hwritten hi) (hbodies i hi) (hfits.bodies i hi)
      (hfits.supportOS i hi)).1 hheld
  · rintro ⟨hplain, hgrow⟩
    refine ⟨⟨es.foldl (fileStep p raw) cfg, readAndInit_of_plain hwritten hplain hfits, ?_, ?_⟩,
      (ignored_file_iff (texts_globals hwritten)).2 hplain.globals,
      fun i hi => (ignored_item_iff (texts_bodies hwritten hi)).2 (hplain.bodies i hi)⟩
    · obtain ⟨its, hits, hall⟩ := @vItem_foldl p raw es cfg
      rw [hits, hcfg, List.nil_append]
      refine ((List.forall₂_and_left _ _).2 ⟨fun i hi => hi, hall⟩).imp ?_
      rintro i _ ⟨hi, raw', tmpPath, rfl⟩
      rw [name_itemOf, strCpyNA_of_length (hfits.names i hi)]
      exact ⟨rfl, (itemOf_holds_iff (texts_bodies hwritten hi) (hplain.bodies i hi)
        (hfits.bodies i hi) (hfits.supportOS i hi)).2 (hgrow i hi)⟩
    · intro param value hlast
      rw [get_foldl_file (texts_globals hwritten) hplain hfits, hlast, Option.elim_some]

end

/-- An item whose digest is written. -/
def digestFile : List Entry := [.item (ascii "gen") [some (ascii "md5", ascii "0")]]

theorem digestFile_written :
    Written (linesOf digestFile) (ascii "gen : CfgItem\n" ++ ascii " md5=0\n" ++ ascii "end") := by
  have hsetting : (Line.setting (some (ascii "md5", ascii "0"))).Writes (ascii " md5=0") := by
    refine ⟨⟨by decide, by decide +kernel⟩, by decide, ⟨by decide, by decide +kernel⟩,
      by decide, ?_⟩
    exact ⟨ascii " ", [], [], [], fun c hc => by rw [List.mem_singleton.1 hc]; decide,
      List.forall_mem_nil _, List.forall_mem_nil _, List.forall_mem_nil _, fun h => rfl, by decide⟩
  have hheader : (Line.header (ascii "gen")).Writes (ascii "gen : CfgItem") := by
    refine ⟨⟨by decide, by decide +kernel⟩, by decide, by decide, ?_⟩
    exact ⟨[], ascii " ", ascii " ", [], List.forall_mem_nil _,
      fun c hc => by rw [List.mem_singleton.1 hc]; decide,
      fun c hc => by rw [List.mem_singleton.1 hc]; decide, List.forall_mem_nil _,
      fun h => absurd h (by decide), by decide⟩
  have hends : Line.ends.Writes (ascii "end") :=
    ⟨[], [], List.forall_mem_nil _, List.forall_mem_nil _, by decide⟩
  refine @Written.cons (true, .header (ascii "gen")) _ (ascii "gen : CfgItem") _ hheader
    (holdsLine_of_length true (by decide)) ?_
  refine @Written.cons (false, .setting (some (ascii "md5", ascii "0"))) _ (ascii " md5=0") _
    hsetting (holdsLine_of_length false (by decide)) ?_
  exact @Written.last (false, .ends) (ascii "end") hends (holdsLine_of_length false (by decide))
    (by decide)

theorem loadsAsWritten_digestFile :
    LoadsAsWritten gendoProcess (fun _ => zeroItem) zeroFile digestFile
        (ascii "gen : CfgItem\n" ++ ascii " md5=0\n" ++ ascii "end") ↔
      PlainNames digestFile ∧ ∀ i ∈ items digestFile, PathsGrow i.2 := by
  refine loadsAsWritten_iff gendoProcess (fun _ => zeroItem) zeroFile rfl digestFile _
    digestFile_written ⟨?_, by decide, ?_, by decide⟩
  · intro name value hmem
    cases List.mem_singleton.1 hmem
  · intro i hi name value hmem param hsame
    cases List.mem_singleton.1 hi
    cases List.mem_singleton.1 hmem
    have hparam : param = .md5 := by
      revert hsame
      cases param <;> decide
    rw [hparam, ItemParam.Holds]
    decide

/-- A global line whose name is only the beginning of `ServerAddr`. -/
def prefixFile : List Entry := [.line (some (ascii "Server", ascii "a"))]

/-- It changes this parameter. -/
theorem not_loadsAsWritten_prefixFile :
    Written (linesOf prefixFile) (ascii "Server=a\n") ∧ Fits gendoProcess prefixFile ∧
      ¬LoadsAsWritten gendoProcess (fun _ => zeroItem) zeroFile prefixFile
        (ascii "Server=a\n") := by
  have hsetting : (Line.setting (some (ascii "Server", ascii "a"))).Writes (ascii "Server=a") := by
    refine ⟨⟨by decide, by decide +kernel⟩, by decide, ⟨by decide, by decide +kernel⟩,
      by decide, ?_⟩
    exact ⟨[], [], [], [], List.forall_mem_nil _, List.forall_mem_nil _, List.forall_mem_nil _,
      List.forall_mem_nil _, fun h => rfl, by decide⟩
  have hunknown : ∀ param : FileParam, ¬SameText (ascii "Server") param.text := by
    intro param
    cases param <;> decide
  refine ⟨@Written.cons (true, .setting (some (ascii "Server", ascii "a"))) _ (ascii "Server=a") _
    hsetting (holdsLine_of_length true (by decide)) .nil, ⟨?_, nofun, nofun, nofun⟩, fun h => ?_⟩
  · intro name value hmem param hsame
    cases List.mem_singleton.1 hmem
    exact absurd hsame (hunknown param)
  · obtain ⟨r, hr⟩ := h.globals.same _ _ List.mem_cons_self hunknown zeroFile
    have hset : zeroFile.setParam (ascii "Server") (ascii "a") =
        .ok ({ zeroFile with serverAddr := ascii "a" }, 0) := by
      rfl
    rw [hset] at hr
    have haddr : ascii "a" = [] :=
      congrArg RopCfgFile.serverAddr (congrArg Prod.fst (Except.ok.inj hr))
    exact absurd haddr (by decide)

end Gendo.Client.Cfg
