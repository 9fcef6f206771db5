import Gendo.Library.FormText
import Gendo.Library.Md5
import Gendo.Library.Php
import Gendo.Web.Activation
import Mathlib.Data.List.DropRight
import Mathlib.Data.List.Sort

/-!
# Signatures of Alipay

A request of `AlipaySubmit` and a callback that `AlipayNotify` checks are signed the same way: the
fields that are empty and the signature itself are left out, the others are sorted by name and put
into one text, and the merchant's key is hashed behind it.

`verifies_request` says that what a request is sent with verifies it in whatever order its fields
arrive. `verifies_iff` says what else the signature verifies: nothing, as long as no field has a
separator in it. `receive_replayed` draws the conclusion for the payments: callbacks that carry
signatures of other messages do what those messages do.

It is a PHP from 5.4 on, where `get_magic_quotes_gpc` is always false.
-/

namespace Gendo.AlipaySign

open List (Perm)

/-! ## Arrays of fields -/

def isLetter (b : UInt8) : Bool := 65 ≤ b && b ≤ 90 || 97 ≤ b && b ≤ 122 || b = 95

/-- A key of an array of fields. PHP would sort keys that look like numbers by their values. -/
structure FieldName where
  text : List UInt8
  letter : text.head?.any isLetter = true
  deriving DecidableEq

/-- The bytes of a text of the source. -/
def ascii (s : String) : List UInt8 := s.toList.map fun c => .ofNat c.toNat

namespace FieldName

def sign : FieldName := ⟨ascii "sign", by decide⟩
def signType : FieldName := ⟨ascii "sign_type", by decide⟩
def notifyId : FieldName := ⟨ascii "notify_id", by decide⟩
def outTradeNo : FieldName := ⟨ascii "out_trade_no", by decide⟩
def tradeNo : FieldName := ⟨ascii "trade_no", by decide⟩
def tradeStatus : FieldName := ⟨ascii "trade_status", by decide⟩
def subject : FieldName := ⟨ascii "subject", by decide⟩
def price : FieldName := ⟨ascii "price", by decide⟩

end FieldName

/-- An array of strings. -/
structure Params where
  fields : List (FieldName × List UInt8)
  nodup : (fields.map Prod.fst).Nodup
  deriving DecidableEq

namespace Params

variable (para : Params)

/-- `$para[$key]`. -/
def get (key : FieldName) : Option (List UInt8) := para.fields.lookup key

/-- The array with some of the fields only. -/
def filter (keep : FieldName × List UInt8 → Bool) : Params where
  fields := para.fields.filter keep
  nodup := para.nodup.sublist (List.filter_sublist.map Prod.fst)

/-- `$para[$key] = $val`. -/
def set (key : FieldName) (val : List UInt8) : Params where
  fields :=
    if key ∈ para.fields.map Prod.fst then
      para.fields.map fun f => if f.1 = key then (key, val) else f
    else para.fields ++ [(key, val)]
  nodup := by
    split
    · have hkeys : (para.fields.map fun f => if f.1 = key then (key, val) else f).map Prod.fst =
          para.fields.map Prod.fst := by
        rw [List.map_map]
        refine List.map_congr_left fun f _ => ?_
        by_cases hf : f.1 = key <;> simp [hf]
      rw [hkeys]
      exact para.nodup
    · next hnew =>
      rw [List.map_append, List.nodup_append]
      refine ⟨para.nodup, by simp, fun k hk k' hk' heq => hnew ?_⟩
      rw [List.map_singleton, List.mem_singleton] at hk'
      have hkey : k = key := heq.trans hk'
      exact hkey ▸ hk

end Params

/-- Whether `strcmp` of two keys is not positive. -/
def strcmpLe : List UInt8 → List UInt8 → Bool
  | [], _ => true
  | _ :: _, [] => false
  | a :: as, b :: bs => a < b || a = b && strcmpLe as bs

/-- The order of `ksort`. -/
def keyLe (f g : FieldName × List UInt8) : Prop := strcmpLe f.1.text g.1.text = true

instance : DecidableRel keyLe := fun _ _ => inferInstanceAs (Decidable (_ = true))

/-! ## Signing -/

/-- `$alipay_config`, as far as it is signed with. -/
structure AlipayConfig where
  key : List UInt8
  signType : List UInt8
  deriving DecidableEq, Repr

def isTrimmed (b : UInt8) : Bool := b ∈ [32, 9, 10, 13, 0, 11]

def trim (s : List UInt8) : List UInt8 := (s.dropWhile isTrimmed).rdropWhile isTrimmed

def strtoupper (s : List UInt8) : List UInt8 :=
  s.map fun b => if 97 ≤ b && b ≤ 122 then b - 32 else b

/-- The fields that `paraFilter` keeps. -/
def isSigned (f : FieldName × List UInt8) : Bool := !(f.1 = .sign || f.1 = .signType || f.2 = [])

/-- `paraFilter`. -/
def paraFilter (para : Params) : Params := para.filter isSigned

/-- `argSort`. -/
def argSort (para : Params) : Params where
  fields := para.fields.insertionSort keyLe
  nodup := ((List.perm_insertionSort keyLe para.fields).map Prod.fst).nodup_iff.mpr para.nodup

/-- `createLinkstring`. `count` of a string is 1, so that `substr` drops the last `&`. -/
def createLinkstring (para : Params) : List UInt8 :=
  (para.fields.flatMap fun f => f.1.text ++ 61 :: f.2 ++ [38]).dropLast

/-- `md5Sign`. -/
def md5Sign (prestr key : List UInt8) : List UInt8 := Md5.hexDigest (prestr ++ key)

/-- The string of PHP that has some bytes. -/
def phpString (bs : List UInt8) : String := .ofList (bs.map fun b => .ofNat b.toNat)

/-- `md5Verify`, where `none` is a signature that is missing. -/
def md5Verify (prestr : List UInt8) (sign : Option (List UInt8)) (key : List UInt8) : Bool :=
  sign.any fun sign => Php.looseEq (phpString (Md5.hexDigest (prestr ++ key))) (phpString sign)

namespace AlipayConfig

variable (alipayConfig : AlipayConfig)

/-- What the two classes switch over. -/
def isMd5 : Bool := strtoupper (trim alipayConfig.signType) = ascii "MD5"

/-- `buildRequestMysign`. -/
def buildRequestMysign (paraSort : Params) : List UInt8 :=
  if alipayConfig.isMd5 then md5Sign (createLinkstring paraSort) alipayConfig.key else []

/-- `buildRequestPara`. -/
def buildRequestPara (paraTemp : Params) : Params :=
  let paraSort := argSort (paraFilter paraTemp)
  let mysign := alipayConfig.buildRequestMysign paraSort
  (paraSort.set .sign mysign).set .signType (strtoupper (trim alipayConfig.signType))

/-- `getSignVeryfy`. -/
def getSignVeryfy (paraTemp : Params) (sign : Option (List UInt8)) : Bool :=
  let prestr := createLinkstring (argSort (paraFilter paraTemp))
  alipayConfig.isMd5 && md5Verify prestr sign alipayConfig.key

end AlipayConfig

/-! ## Callbacks -/

/-- What `"/true$/i"` matches. -/
def matchesTrue (responseTxt : List UInt8) : Bool :=
  let upper := strtoupper responseTxt
  ascii "TRUE" <:+ upper || ascii "TRUE\n" <:+ upper

/-- `verifyNotify` and `verifyReturn`, which differ in where the array comes from. `getResponse` is
what the server of Alipay says of a notification. -/
def verify (alipayConfig : AlipayConfig) (getResponse : List UInt8 → List UInt8) (post : Params) :
    Bool :=
  if post.fields = [] then false
  else
    let isSign := alipayConfig.getSignVeryfy post (post.get .sign)
    let responseTxt :=
      match post.get .notifyId with
      -- empty() is true of "0"
      | none | some [] | some [48] => ascii "true"
      | some notifyId => getResponse notifyId
    matchesTrue responseTxt && isSign

/-! ## A trade -/

def shopConfig : AlipayConfig := ⟨ascii "key", ascii " md5"⟩

def tradeFields (price : String) : List (FieldName × List UInt8) :=
  [(.outTradeNo, ascii "201306010000020001"), (.tradeNo, ascii "7"), (.subject, ascii "VIP"),
    (.price, ascii price), (.tradeStatus, ascii "TRADE_SUCCESS"), (.notifyId, [])]

def shopPara : Params := ⟨tradeFields "15", by decide⟩

/-- The same trade for less. -/
def cheapPara : Params := ⟨tradeFields "1", by decide⟩

/-- The fields of an array from the last to the first. -/
def Params.reversed (para : Params) : Params where
  fields := para.fields.reverse
  nodup := by
    rw [List.map_reverse, List.nodup_reverse]
    exact para.nodup

/-! ## The order of the fields -/

theorem strcmpLe_total (as bs : List UInt8) : strcmpLe as bs = true ∨ strcmpLe bs as = true := by
  induction as generalizing bs with
  | nil => exact .inl rfl
  | cons a as ih =>
    rcases bs with _ | ⟨b, bs⟩
    · exact .inr rfl
    · rcases Nat.lt_trichotomy a.toNat b.toNat with hlt | heq | hgt
      · exact .inl (by simp [strcmpLe, UInt8.lt_iff_toNat_lt.mpr hlt])
      · obtain rfl : a = b := UInt8.toNat_inj.mp heq
        simpa [strcmpLe] using ih bs
      · exact .inr (by simp [strcmpLe, UInt8.lt_iff_toNat_lt.mpr hgt])

theorem strcmpLe_trans {as bs cs : List UInt8} (h : strcmpLe as bs = true)
    (h' : strcmpLe bs cs = true) : strcmpLe as cs = true := by
  induction as generalizing bs cs with
  | nil => rfl
  | cons a as ih =>
    rcases bs with _ | ⟨b, bs⟩
    · simp [strcmpLe] at h
    · rcases cs with _ | ⟨c, cs⟩
      · simp [strcmpLe] at h'
      · simp only [strcmpLe, Bool.or_eq_true, Bool.and_eq_true, decide_eq_true_eq] at h h' ⊢
        rcases h with hlt | ⟨rfl, hle⟩
        · rcases h' with hlt' | ⟨rfl, -⟩
          · exact .inl (UInt8.lt_trans hlt hlt')
          · exact .inl hlt
        · exact h'.imp id fun h' => ⟨h'.1, ih hle h'.2⟩

theorem strcmpLe_antisymm {as bs : List UInt8} (h : strcmpLe as bs = true)
    (h' : strcmpLe bs as = true) : as = bs := by
  induction as generalizing bs with
  | nil =>
    rcases bs with _ | ⟨b, bs⟩
    · rfl
    · simp [strcmpLe] at h'
  | cons a as ih =>
    rcases bs with _ | ⟨b, bs⟩
    · simp [strcmpLe] at h
    · simp only [strcmpLe, Bool.or_eq_true, Bool.and_eq_true, decide_eq_true_eq] at h h'
      rcases h with hlt | ⟨rfl, hle⟩
      · rcases h' with hlt' | ⟨rfl, -⟩
        · exact absurd (UInt8.lt_trans hlt hlt') (UInt8.lt_irrefl a)
        · exact absurd hlt (UInt8.lt_irrefl _)
      · rcases h' with hlt' | ⟨-, hle'⟩
        · exact absurd hlt' (UInt8.lt_irrefl a)
        · rw [ih hle hle']

instance : Std.Total keyLe := ⟨fun f g => strcmpLe_total f.1.text g.1.text⟩

instance : IsTrans (FieldName × List UInt8) keyLe := ⟨fun _ _ _ => strcmpLe_trans⟩

namespace Params

variable {para para' : Params} {key : FieldName} {val : List UInt8}

theorem ext_fields (h : para.fields = para'.fields) : para = para' := by
  obtain ⟨fields, nodup⟩ := para
  obtain ⟨fields', nodup'⟩ := para'
  obtain rfl : fields = fields' := h
  rfl

/-- A key has one value. -/
theorem get_eq_some_iff : para.get key = some val ↔ (key, val) ∈ para.fields := by
  obtain ⟨fields, nodup⟩ := para
  simp only [get]
  induction fields with
  | nil => simp
  | cons f fields ih =>
    obtain ⟨k, v⟩ := f
    rw [List.map_cons, List.nodup_cons] at nodup
    rw [List.mem_cons]
    by_cases hkey : key = k
    · subst hkey
      have hrest : (key, val) ∉ fields := fun hmem => nodup.1 (List.mem_map.mpr ⟨_, hmem, rfl⟩)
      simp [hrest, eq_comm]
    · have hbeq : (key == k) = false := beq_false_of_ne hkey
      simp [List.lookup_cons, hbeq, hkey, ih nodup.2]

theorem get_congr (h : Perm para.fields para'.fields) (key : FieldName) :
    para.get key = para'.get key := by
  apply Option.ext
  intro val
  rw [get_eq_some_iff, get_eq_some_iff, h.mem_iff]

theorem fields_set (h : key ∉ para.fields.map Prod.fst) (val : List UInt8) :
    (para.set key val).fields = para.fields ++ [(key, val)] := if_neg h

end Params

/-- Sorted, the same fields are the same array. -/
theorem argSort_congr {para para' : Params} (h : Perm para.fields para'.fields) :
    argSort para = argSort para' := by
  apply Params.ext_fields
  have hperm : Perm (argSort para).fields (argSort para').fields :=
    (List.perm_insertionSort _ _).trans (h.trans (List.perm_insertionSort _ _).symm)
  refine hperm.eq_of_pairwise (fun f g hf hg hle hge => ?_) (List.pairwise_insertionSort keyLe _)
    (List.pairwise_insertionSort keyLe _)
  -- two fields of one array that have the same key are one field
  have hkey : f.1 = g.1 := by
    obtain ⟨⟨ftext, fletter⟩, fval⟩ := f
    obtain ⟨⟨gtext, gletter⟩, gval⟩ := g
    obtain rfl : ftext = gtext := strcmpLe_antisymm hle hge
    rfl
  have hval : some f.2 = some g.2 := by
    have hgetf : (argSort para).get f.1 = some f.2 := Params.get_eq_some_iff.mpr hf
    have hgetg : (argSort para).get g.1 = some g.2 :=
      Params.get_eq_some_iff.mpr (hperm.mem_iff.mpr hg)
    rw [← hgetf, ← hgetg, hkey]
  exact Prod.ext hkey (Option.some.inj hval)

/-! ## What a signature verifies -/

/-- The signature of an array. -/
def AlipayConfig.signature (alipayConfig : AlipayConfig) (para : Params) : List UInt8 :=
  alipayConfig.buildRequestMysign (argSort (paraFilter para))

/-- The text that is signed of an array. -/
def AlipayConfig.signedText (alipayConfig : AlipayConfig) (para : Params) : List UInt8 :=
  createLinkstring (argSort (paraFilter para)) ++ alipayConfig.key

theorem mem_paraFilter {para : Params} {f : FieldName × List UInt8} :
    f ∈ (paraFilter para).fields ↔ f ∈ para.fields ∧ isSigned f = true := List.mem_filter

theorem isSigned_iff {f : FieldName × List UInt8} :
    isSigned f = true ↔ f.1 ≠ .sign ∧ f.1 ≠ .signType ∧ f.2 ≠ [] := by
  simp [isSigned, and_assoc]

theorem isSigned_of_mem_argSort {para : Params} {f : FieldName × List UInt8}
    (h : f ∈ (argSort (paraFilter para)).fields) : isSigned f = true :=
  (mem_paraFilter.mp ((List.perm_insertionSort keyLe _).mem_iff.mp h)).2

/-- A request is its fields, and then those of the signature. -/
theorem fields_request (alipayConfig : AlipayConfig) (para : Params) :
    (alipayConfig.buildRequestPara para).fields = (argSort (paraFilter para)).fields ++
      [(.sign, alipayConfig.signature para),
        (.signType, strtoupper (trim alipayConfig.signType))] := by
  have hnew : ∀ {key : FieldName}, key = .sign ∨ key = .signType →
      key ∉ (argSort (paraFilter para)).fields.map Prod.fst := by
    intro key hkey hin
    obtain ⟨f, hf, rfl⟩ := List.mem_map.mp hin
    obtain ⟨hsign, htype, -⟩ := isSigned_iff.mp (isSigned_of_mem_argSort hf)
    exact hkey.elim hsign htype
  have hsign := Params.fields_set (hnew (.inl rfl)) (alipayConfig.signature para)
  have htype : FieldName.signType ∉ ((argSort (paraFilter para)).set .sign
      (alipayConfig.signature para)).fields.map Prod.fst := by
    rw [hsign, List.map_append, List.mem_append]
    refine fun h => h.elim (hnew (.inr rfl)) fun h => ?_
    have heq : FieldName.signType = FieldName.sign := List.mem_singleton.mp h
    exact absurd heq (by decide)
  have hfields := Params.fields_set htype (strtoupper (trim alipayConfig.signType))
  rw [hsign, List.append_assoc] at hfields
  exact hfields

/-- The two fields of the signature are left out again. -/
theorem paraFilter_request (alipayConfig : AlipayConfig) (para : Params) :
    Perm (paraFilter (alipayConfig.buildRequestPara para)).fields (paraFilter para).fields := by
  have hfilter : (paraFilter (alipayConfig.buildRequestPara para)).fields =
      (argSort (paraFilter para)).fields := by
    change (alipayConfig.buildRequestPara para).fields.filter isSigned = _
    rw [fields_request, List.filter_append,
      List.filter_eq_self.mpr fun f hf => isSigned_of_mem_argSort hf]
    simp [isSigned]
  rw [hfilter]
  exact List.perm_insertionSort keyLe _

theorem paraFilter_congr {para para' : Params} (h : Perm para.fields para'.fields) :
    Perm (paraFilter para).fields (paraFilter para').fields := h.filter _

theorem md5Verify_some (prestr sign key : List UInt8) :
    md5Verify prestr (some sign) key =
      Php.looseEq (phpString (Md5.hexDigest (prestr ++ key))) (phpString sign) := by
  rw [md5Verify, Option.any_some]

theorem signature_eq {alipayConfig : AlipayConfig} (hmd5 : alipayConfig.isMd5 = true)
    (para : Params) :
    alipayConfig.signature para = Md5.hexDigest (alipayConfig.signedText para) := if_pos hmd5

theorem getSignVeryfy_some {alipayConfig : AlipayConfig} (hmd5 : alipayConfig.isMd5 = true)
    (para : Params) (sign : List UInt8) :
    alipayConfig.getSignVeryfy para (some sign) =
      Php.looseEq (phpString (Md5.hexDigest (alipayConfig.signedText para))) (phpString sign) := by
  rw [AlipayConfig.getSignVeryfy, hmd5, Bool.true_and, md5Verify_some]
  rfl

/-- The signature of the same fields verifies an array. -/
theorem verifies_of_perm {alipayConfig : AlipayConfig} (hmd5 : alipayConfig.isMd5 = true)
    {para para' : Params} (h : Perm (paraFilter para').fields (paraFilter para).fields) :
    alipayConfig.getSignVeryfy para' (some (alipayConfig.signature para)) = true := by
  rw [getSignVeryfy_some hmd5, signature_eq hmd5, AlipayConfig.signedText, argSort_congr h]
  exact Php.looseEq_self _

/-- A request is verified by its own signature, in whatever order its fields arrive. -/
theorem verifies_request {alipayConfig : AlipayConfig} (hmd5 : alipayConfig.isMd5 = true)
    {para received : Params}
    (h : Perm received.fields (alipayConfig.buildRequestPara para).fields) :
    alipayConfig.getSignVeryfy received (received.get .sign) = true := by
  have hsign : received.get .sign = some (alipayConfig.signature para) := by
    rw [Params.get_congr h, Params.get_eq_some_iff, fields_request]
    simp
  rw [hsign]
  exact verifies_of_perm hmd5 ((paraFilter_congr h).trans (paraFilter_request alipayConfig para))

theorem verifies_request_shopPara :
    shopConfig.getSignVeryfy (shopConfig.buildRequestPara shopPara).reversed
      ((shopConfig.buildRequestPara shopPara).reversed.get .sign) = true :=
  verifies_request (by decide +kernel) (List.reverse_perm _)

/-! ## What it does not verify -/

/-- An array whose signed fields can be told apart in its text. -/
def PlainParams (para : Params) : Prop :=
  ∀ f ∈ (paraFilter para).fields, FormText.Plain 61 38 (f.1.text, f.2)

instance (para : Params) : Decidable (PlainParams para) :=
  inferInstanceAs (Decidable (∀ f ∈ (paraFilter para).fields, _))

/-- The texts of arrays tell them apart. -/
theorem fields_of_createLinkstring {para para' : Params} (hplain : PlainParams para)
    (hplain' : PlainParams para')
    (h : createLinkstring (argSort (paraFilter para)) =
      createLinkstring (argSort (paraFilter para'))) :
    Perm (paraFilter para).fields (paraFilter para').fields := by
  have hsort : ∀ para : Params, Perm (argSort para).fields para.fields := fun para =>
    List.perm_insertionSort keyLe _
  have htext : ∀ para : Params, createLinkstring para =
      FormText.text 61 38 (para.fields.map fun f => (f.1.text, f.2)) := by
    intro para
    rw [FormText.text, List.flatMap_map]
    rfl
  have hpieces : ∀ {para : Params}, PlainParams para →
      ∀ f ∈ (argSort (paraFilter para)).fields.map (fun f => (f.1.text, f.2)),
        FormText.Plain 61 38 f := by
    intro para hplain f hf
    obtain ⟨g, hg, rfl⟩ := List.mem_map.mp hf
    exact hplain g ((hsort _).mem_iff.mp hg)
  rw [htext, htext] at h
  have hmap := FormText.text_inj (by decide) (hpieces hplain) (hpieces hplain') h
  have hinj : Function.Injective fun f : FieldName × List UInt8 => (f.1.text, f.2) := by
    rintro ⟨⟨text, letter⟩, val⟩ ⟨⟨text', letter'⟩, val'⟩ heq
    obtain ⟨rfl, rfl⟩ := Prod.mk.inj heq
    rfl
  have hfields := List.map_injective_iff.mpr hinj hmap
  exact (hsort _).symm.trans (hfields ▸ hsort _)

theorem phpString_injective : Function.Injective phpString := by
  intro as bs h
  have hchars := congrArg String.toList h
  rw [phpString, phpString, String.toList_ofList, String.toList_ofList] at hchars
  refine List.map_injective_iff.mpr (fun a b hab => ?_) hchars
  have hvalid : ∀ b : UInt8, (Char.ofNat b.toNat).toNat = b.toNat := by
    intro b
    have hb : b.toNat.isValidChar := .inl (by have := b.toNat_lt; omega)
    rw [Char.ofNat, dif_pos hb]
    rfl
  apply UInt8.toNat_inj.mp
  rw [← hvalid a, ← hvalid b, hab]

/-- A signature verifies the fields that it is the signature of, and no others. -/
theorem verifies_iff {alipayConfig : AlipayConfig} (hmd5 : alipayConfig.isMd5 = true)
    {para para' : Params} (hplain : PlainParams para) (hplain' : PlainParams para')
    (hnumeric : Php.isNumeric (phpString (alipayConfig.signature para)) = false)
    (hcollision : Md5.hexDigest (alipayConfig.signedText para') =
      Md5.hexDigest (alipayConfig.signedText para) →
        alipayConfig.signedText para' = alipayConfig.signedText para) :
    alipayConfig.getSignVeryfy para' (some (alipayConfig.signature para)) = true ↔
      Perm (paraFilter para').fields (paraFilter para).fields := by
  refine ⟨fun h => ?_, verifies_of_perm hmd5⟩
  rw [getSignVeryfy_some hmd5] at h
  have heq : Md5.hexDigest (alipayConfig.signedText para') = alipayConfig.signature para :=
    phpString_injective ((Php.looseEq_iff hnumeric).mp h)
  rw [signature_eq hmd5] at heq
  exact fields_of_createLinkstring hplain' hplain (List.append_cancel_right (hcollision heq))

theorem verifies_iff_cheapPara :
    ¬shopConfig.getSignVeryfy cheapPara (some (shopConfig.signature shopPara)) = true := by
  have hcollision : ¬Md5.hexDigest (shopConfig.signedText cheapPara) =
      Md5.hexDigest (shopConfig.signedText shopPara) := by decide +kernel
  rw [verifies_iff (by decide +kernel) (by decide +kernel) (by decide +kernel) (by decide +kernel)
    fun h => absurd h hcollision]
  decide +kernel

/-! ## Callbacks with old signatures -/

/-- The fields that the two controllers read. -/
def messageKeys : List FieldName := [.outTradeNo, .tradeNo, .tradeStatus, .subject, .price]

/-- What the controllers read of a callback; `input` is what `$this->input` returns for a field. -/
def message (input : Option (List UInt8) → String) (verified : Bool) (post : Params) : Message where
  verified := verified
  outTradeNo := input (post.get .outTradeNo)
  tradeNo := input (post.get .tradeNo)
  tradeStatus := (post.get .tradeStatus).map fun val => input (some val)
  prodName := input (post.get .subject)
  prodPrice := Php.value (input (post.get .price))

/-- A callback as it arrives. -/
structure Arrival where
  callback : Callback
  post : Params
  fails : Failures

/-- What it is to the controllers. -/
def Arrival.delivery (input : Option (List UInt8) → String) (verified : Bool) (a : Arrival) :
    Delivery :=
  ⟨a.callback, message input verified a.post, a.fails⟩

/-- The tables after it. -/
def receive (alipayConfig : AlipayConfig) (getResponse : List UInt8 → List UInt8)
    (input : Option (List UInt8) → String) (db : Db) (a : Arrival) : Db :=
  deliver db (a.delivery input (verify alipayConfig getResponse a.post))

/-- The array carries the signature of another one, which has all the fields that are read. -/
structure Replays (alipayConfig : AlipayConfig) (post para : Params) : Prop where
  sign : post.get .sign = some (alipayConfig.signature para)
  plain : PlainParams post
  plainPara : PlainParams para
  named : ∀ key ∈ messageKeys, (para.get key).any (· ≠ []) = true
  notNumeric : Php.isNumeric (phpString (alipayConfig.signature para)) = false
  noCollision : Md5.hexDigest (alipayConfig.signedText post) =
    Md5.hexDigest (alipayConfig.signedText para) →
      alipayConfig.signedText post = alipayConfig.signedText para

theorem verify_sign {alipayConfig : AlipayConfig} {getResponse : List UInt8 → List UInt8}
    {post : Params} (h : verify alipayConfig getResponse post = true) :
    alipayConfig.getSignVeryfy post (post.get .sign) = true := by
  unfold verify at h
  split at h
  · exact absurd h (by decide)
  · exact (Bool.and_eq_true_iff.mp h).2

/-- A field that is signed of one array is the same in another one with its signed fields. -/
theorem get_eq_of_perm {post para : Params}
    (h : Perm (paraFilter post).fields (paraFilter para).fields) {key : FieldName}
    (hkey : key ∈ messageKeys) (hnamed : (para.get key).any (· ≠ []) = true) :
    post.get key = para.get key := by
  have hread : ∀ key ∈ messageKeys, key ≠ .sign ∧ key ≠ .signType := by decide
  obtain ⟨val, hval, hne⟩ := (Option.any_eq_true _ _).mp hnamed
  have hsigned : isSigned (key, val) = true :=
    isSigned_iff.mpr ⟨(hread key hkey).1, (hread key hkey).2, by simpa using hne⟩
  have hpara : (key, val) ∈ (paraFilter para).fields :=
    mem_paraFilter.mpr ⟨Params.get_eq_some_iff.mp hval, hsigned⟩
  rw [hval, Params.get_eq_some_iff]
  exact (mem_paraFilter.mp (h.mem_iff.mpr hpara)).1

/-- A callback that is accepted is read like the message whose signature it carries. -/
theorem message_replayed {alipayConfig : AlipayConfig} (hmd5 : alipayConfig.isMd5 = true)
    {post para : Params} (h : Replays alipayConfig post para)
    {getResponse : List UInt8 → List UInt8} (hverify : verify alipayConfig getResponse post = true)
    (input : Option (List UInt8) → String) :
    message input true post = message input true para := by
  have hsign := verify_sign hverify
  rw [h.sign, verifies_iff hmd5 h.plainPara h.plain h.notNumeric h.noCollision] at hsign
  have hget : ∀ key ∈ messageKeys, post.get key = para.get key := fun key hkey =>
    get_eq_of_perm hsign hkey (h.named key hkey)
  simp only [messageKeys, List.forall_mem_cons] at hget
  obtain ⟨hout, htrade, hstatus, hsubject, hprice, -⟩ := hget
  rw [message, message, hout, htrade, hstatus, hsubject, hprice]

/-- Callbacks that carry signatures of other messages do what those messages do, or nothing. -/
theorem receive_replayed {alipayConfig : AlipayConfig} (hmd5 : alipayConfig.isMd5 = true)
    (getResponse : List UInt8 → List UInt8) (input : Option (List UInt8) → String)
    {arrivals : List (Arrival × Params)}
    (h : ∀ a ∈ arrivals, Replays alipayConfig a.1.post a.2) (db : Db) :
    (arrivals.map Prod.fst).foldl (receive alipayConfig getResponse input) db =
      ((arrivals.filter fun a => verify alipayConfig getResponse a.1.post).map fun a =>
        Arrival.delivery input true { a.1 with post := a.2 }).foldl deliver db := by
  induction arrivals generalizing db with
  | nil => rfl
  | cons a arrivals ih =>
    obtain ⟨ha, harrivals⟩ := List.forall_mem_cons.mp h
    rw [List.map_cons, List.foldl_cons, ih harrivals, List.filter_cons]
    by_cases hverify : verify alipayConfig getResponse a.1.post = true
    · rw [if_pos hverify, List.map_cons, List.foldl_cons, receive, hverify, Arrival.delivery,
        Arrival.delivery, message_replayed hmd5 ha hverify]
    · have hrefused : receive alipayConfig getResponse input db a.1 = db := by
        rw [receive, deliver, Delivery.transacted, handle_of_not_verified hverify]
      rw [if_neg hverify, hrefused]

/-- The callback of the trade, and a second one that asks less with the signature of the first. -/
def shopArrivals : List (Arrival × Params) :=
  [(⟨.alipayNotifyUrl, shopConfig.buildRequestPara shopPara, ⟨false, false, false⟩⟩, shopPara),
    (⟨.alipayReturnUrl, cheapPara.set .sign (shopConfig.signature shopPara),
      ⟨false, false, false⟩⟩, shopPara)]

theorem receive_replayed_shopArrivals :
    (shopArrivals.map Prod.fst).foldl (receive shopConfig id fun val => phpString (val.getD []))
        oneOrderDb =
      ((shopArrivals.filter fun a => verify shopConfig id a.1.post).map fun a =>
        Arrival.delivery (fun val => phpString (val.getD [])) true
          { a.1 with post := a.2 }).foldl deliver oneOrderDb := by
  apply receive_replayed (by decide +kernel)
  intro a ha
  simp only [shopArrivals, List.mem_cons, List.not_mem_nil, or_false] at ha
  rcases ha with rfl | rfl
  · exact ⟨by decide +kernel, by decide +kernel, by decide +kernel, by decide +kernel,
      by decide +kernel, fun _ => by decide +kernel⟩
  · have hcollision : ¬Md5.hexDigest (shopConfig.signedText
        (cheapPara.set .sign (shopConfig.signature shopPara))) =
          Md5.hexDigest (shopConfig.signedText shopPara) := by decide +kernel
    exact ⟨by decide +kernel, by decide +kernel, by decide +kernel, by decide +kernel,
      by decide +kernel, fun h => absurd h hcollision⟩

end Gendo.AlipaySign
