import Gendo.Library.Php
import Gendo.Library.TextColumn
import Gendo.Server.UserDb

/-!
# Registering

`Register::submit` validates what was posted and stores it as a row of the `user` table. The
validation trims every value before it looks at it. What is stored is read before that: it is
what `xss_clean` makes of the value as it was posted, blanks and all.

`xss_clean` is a parameter, like the mode of the database server. The columns are those of
`openvpn.sql`; the four that the server asks for and that are not there are given by the row
`others`, except for `quota_start`, which the registration fills.
-/

namespace Gendo

open ByteMemory TextColumn

/-! ## Validation -/

/-- The characters that `trim` takes off. -/
def isTrimmed (c : Char) : Bool := c ∈ [' ', '\t', '\n', '\r', '\x00', '\x0b']

/-- `trim`. -/
def trim (s : List Char) : List Char := (s.dropWhile isTrimmed).rdropWhile isTrimmed

/-- The length that `min_length` and `max_length` go by: characters if there is `mb_strlen`, and
bytes otherwise. -/
def ruleLength (mbStrlen : Bool) (s : List Char) : ℕ :=
  if mbStrlen then s.length else (utf8 s).length

def minLength (mbStrlen : Bool) (val : ℕ) (s : List Char) : Bool := val ≤ ruleLength mbStrlen s

def maxLength (mbStrlen : Bool) (val : ℕ) (s : List Char) : Bool := ruleLength mbStrlen s ≤ val

/-- `/^([a-z0-9])+$/i`. -/
def alphaNumeric (s : List Char) : Bool := s ≠ [] && s.all Char.isAlphanum

/-- One of the parts between the dots of an address. -/
def isAtom (allowed : Char → Bool) (s : List Char) : Bool := s ≠ [] && s.all allowed

/-- `/^([a-z0-9\+_\-]+)(\.[a-z0-9\+_\-]+)*@([a-z0-9\-]+\.)+[a-z]{2,6}$/ix`. -/
def validEmail (s : List Char) : Bool :=
  match s.splitOn '@' with
  | [name, host] =>
    -- the expression is anchored, so every part between two dots has to be an atom
    (name.splitOn '.').all (isAtom fun c => c.isAlphanum || c ∈ ['+', '_', '-']) &&
      match (host.splitOn '.').reverse with
      | top :: label :: labels =>
        top.all Char.isAlpha && 2 ≤ top.length && top.length ≤ 6 &&
          (label :: labels).all (isAtom fun c => c.isAlphanum || c = '-')
      | _ => false
  | _ => false

/-- The fields of the form, as far as they are posted. -/
structure RegisterPost where
  regUsername : Option (List Char)
  regPassword : Option (List Char)
  regPassconf : Option (List Char)
  email : Option (List Char)
  nickname : Option (List Char)

/-- The rules `required|trim` and those that follow them. -/
def passes (rules : List (List Char → Bool)) : Option (List Char) → Bool
  | none => false
  | some s => trim s ≠ [] && rules.all (· (trim s))

/-- `Register::submit_validate`. The password is compared with what was posted, which is not
trimmed yet. -/
def submitValidate (mbStrlen : Bool) (post : RegisterPost) : Bool :=
  passes [alphaNumeric, minLength mbStrlen 3, maxLength mbStrlen 12] post.regUsername &&
    passes [minLength mbStrlen 6, maxLength mbStrlen 12, (post.regPassconf = some ·)]
      post.regPassword &&
    passes [minLength mbStrlen 6, maxLength mbStrlen 12] post.regPassconf &&
    passes [validEmail] post.email &&
    passes [minLength mbStrlen 1, maxLength mbStrlen 64] post.nickname

/-! ## The row -/

/-- A date as a `TIMESTAMP` column has it, which may be the zero date. -/
structure Timestamp where
  year : Fin 10000
  month : Fin 13
  day : Fin 32
  hour : Fin 24
  minute : Fin 60
  second : Fin 60

/-- The last `w` decimal digits of a number. -/
def decimals (w n : ℕ) : List UInt8 :=
  (List.range w).reverse.map fun i => 48 + UInt8.ofNat (n / 10 ^ i % 10)

/-- `Y-m-d H:i:s`. -/
def Timestamp.text (t : Timestamp) : List UInt8 :=
  decimals 4 t.year ++ ascii "-" ++ decimals 2 t.month ++ ascii "-" ++ decimals 2 t.day ++
    ascii " " ++ decimals 2 t.hour ++ ascii ":" ++ decimals 2 t.minute ++ ascii ":" ++
    decimals 2 t.second

/-- What the server reads from a text column, as the string that it is in C. -/
def fetch (col : TextColumn.Column) (cs : List Char) : CString := .ofBytes (utf8 (col.keep cs))

/-! The character columns of `user`. -/

def USER_USERNAME : TextColumn.Column := ⟨.char, 32⟩
def USER_PASSWORD : TextColumn.Column := ⟨.char, 128⟩
def USER_NAME : TextColumn.Column := ⟨.varchar, 32⟩
def USER_EMAIL : TextColumn.Column := ⟨.varchar, 128⟩
def USER_NOTE : TextColumn.Column := ⟨.varchar, 256⟩
def USER_QUOTA_NAME : TextColumn.Column := ⟨.varchar, 128⟩

/-- The default `$quota_name` of `add_user`. -/
def QUOTA_NAME : List Char := "免费用户，流量5G/月，不限时!".toList

/-- What the clock says when a user registers, and three years later. -/
structure RegisterDates where
  now : Timestamp
  expire : Timestamp

/-- The row of `add_openvpn_user`, in the order in which `gas_db_user_info` selects it. -/
def openvpnUser (id : ℕ) (dates : RegisterDates) (others : Row)
    (name pwd email nick : List Char) : Row
  | 0 => some (.ofBytes (ascii (toString id)))
  | 1 => some (fetch USER_USERNAME name)
  | 2 => some (fetch USER_PASSWORD pwd)
  | 3 => some (.ofBytes (ascii "1"))
  | 4 => some (.ofBytes dates.now.text)
  | 5 => some (fetch USER_NAME nick)
  | 6 => some (fetch USER_EMAIL email)
  -- a new user has the free quota, and used nothing of it
  | 7 => some (fetch USER_NOTE [])
  | 8 => some (.ofBytes (ascii "30"))
  | 9 => some (.ofBytes (ascii "5368709120"))
  | 10 => some (.ofBytes (ascii "0"))
  | 11 => some (fetch USER_QUOTA_NAME QUOTA_NAME)
  | 12 => some (.ofBytes dates.expire.text)
  | 13 => some (.ofBytes (ascii "0"))
  | 14 => some (.ofBytes (ascii "1"))
  | 15 => some (.ofBytes (ascii "0"))
  | 16 => some (.ofBytes dates.now.text)
  | n => others n

/-- What a registration meets: PHP and its library, and the databases. -/
structure RegisterEnv where
  mbStrlen : Bool
  xssClean : List Char → List Char
  isUserExist : List Char → Bool
  /-- The database server refuses what a column does not hold. -/
  strict : Bool
  radiusOk : Bool

/-- `User_mdl::add_user`: the row that is there afterwards, if one is. -/
def addUser (env : RegisterEnv) (id : ℕ) (dates : RegisterDates) (others : Row)
    (name pwd email nick : List Char) : Option Row :=
  if env.isUserExist name then none
  else if env.strict && !(USER_USERNAME.holds name && USER_PASSWORD.holds pwd &&
      USER_EMAIL.holds email && USER_NAME.holds nick) then none
  -- no entry in the RADIUS database: the row is deleted again
  else if !env.radiusOk then none
  else some (openvpnUser id dates others name pwd email nick)

/-- `Register::submit`: the row that it creates, if it does. -/
def submit (env : RegisterEnv) (id : ℕ) (dates : RegisterDates) (others : Row)
    (post : RegisterPost) : Option Row :=
  match post.regUsername, post.regPassword, post.email, post.nickname with
  | some username, some password, some email, some nickname =>
    if submitValidate env.mbStrlen post then
      -- these values were read before the validation, which trims its own copies
      addUser env id dates others (env.xssClean username) (env.xssClean password)
        (env.xssClean email) (env.xssClean nickname)
    else none
  | _, _, _, _ => none

/-! ## What is in a row -/

@[simp]
theorem length_decimals (w n : ℕ) : (decimals w n).length = w := by simp [decimals]

/-- A date is nineteen bytes. -/
theorem Timestamp.length_text (t : Timestamp) : t.text.length = 19 := by
  simp only [Timestamp.text, List.length_append, length_decimals]
  decide

/-- A string is no longer than the bytes it is taken from. -/
theorem length_ofBytes_le (bs : List UInt8) : (CString.ofBytes bs).1.length ≤ bs.length :=
  (List.takeWhile_prefix _).length_le

/-- A row is created from a form that passes, with the values as they were posted. -/
theorem submit_eq_some {env : RegisterEnv} {id : ℕ} {dates : RegisterDates} {others row : Row}
    {post : RegisterPost} (h : submit env id dates others post = some row) :
    ∃ username password email nickname, post.regUsername = some username ∧
      post.regPassword = some password ∧ post.email = some email ∧
      post.nickname = some nickname ∧ submitValidate env.mbStrlen post = true ∧
      row = openvpnUser id dates others (env.xssClean username) (env.xssClean password)
        (env.xssClean email) (env.xssClean nickname) := by
  rw [submit] at h
  split at h
  · next username password email nickname husername hpassword hemail hnickname =>
    by_cases hvalid : submitValidate env.mbStrlen post = true
    · rw [if_pos hvalid, addUser] at h
      refine ⟨username, password, email, nickname, husername, hpassword, hemail, hnickname,
        hvalid, ?_⟩
      split_ifs at h
      exact (Option.some.inj h).symm
    · rw [if_neg hvalid] at h
      cases h
  · cases h

/-- Letters and digits are ASCII characters. -/
theorem val_le_of_isAlphanum {c : Char} (h : c.isAlphanum = true) : c.val ≤ 127 := by
  have hlast : 'Z'.val ≤ 127 ∧ 'z'.val ≤ 127 ∧ '9'.val ≤ 127 := by decide
  rcases (Bool.or_eq_true _ _).mp h with halpha | hdigit
  · rcases (Bool.or_eq_true _ _).mp halpha with hupper | hlower
    · exact UInt32.le_trans (of_decide_eq_true hupper).2 hlast.1
    · have hle := of_decide_eq_true ((Bool.and_eq_true _ _).mp hlower).2
      exact UInt32.le_trans hle hlast.2.1
  · have hle := of_decide_eq_true ((Bool.and_eq_true _ _).mp hdigit).2
    exact UInt32.le_trans hle hlast.2.2

/-- A user name that is posted without blanks around it, and that `xss_clean` leaves alone, is
read from its column as one of at most twelve bytes. -/
theorem length_fetch_username_le {mbStrlen : Bool} {post : RegisterPost} {username : List Char}
    (hvalid : submitValidate mbStrlen post = true) (hpost : post.regUsername = some username)
    (hplain : trim username = username) :
    (fetch USER_USERNAME username).1.length ≤ 12 := by
  have hrules : alphaNumeric username = true ∧ maxLength mbStrlen 12 username = true := by
    -- the rules look at the trimmed value, and that is the value itself
    simp only [submitValidate, hpost, passes, hplain, List.all_cons, List.all_nil,
      Bool.and_eq_true] at hvalid
    exact ⟨hvalid.1.1.1.1.2.1, hvalid.1.1.1.1.2.2.2.1⟩
  have hascii : ∀ c ∈ username, c.val ≤ 127 := by
    intro c hc
    have hall := hrules.1
    rw [alphaNumeric, Bool.and_eq_true] at hall
    exact val_le_of_isAlphanum (List.all_eq_true.mp hall.2 c hc)
  have hbytes : (utf8 username).length ≤ 12 := by
    have hlen := of_decide_eq_true hrules.2
    rw [ruleLength] at hlen
    rw [length_utf8_of_ascii hascii] at hlen ⊢
    simpa using hlen
  calc (fetch USER_USERNAME username).1.length
      ≤ (utf8 (USER_USERNAME.keep username)).length := length_ofBytes_le _
    _ ≤ (utf8 username).length := length_utf8_le_of_prefix (keep_isPrefix _ _)
    _ ≤ 12 := hbytes

end Gendo
