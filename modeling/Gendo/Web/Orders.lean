import Gendo.Library.Php
import Gendo.Library.Table

/-!
# The order table and the user table

The two tables of the web site that a payment touches, and the statements of `Order_mdl` and
`User_mdl` on them. Each read and each `update` is a function of its own, since the callbacks of
two requests interleave between statements. A statement that fails leaves its table as it was;
what `affected_rows` says goes to the log and nowhere else.

Prices are exact rationals, and a date is a number of seconds. The `order` table is not in the dump
of the database, and what a column keeps depends on its type and on the mode of the server, so
`Platform` has this as parameters; that a price is kept as a number and a date as a date is assumed.
-/

namespace Gendo

open Table

/-- Seconds of the server's clock. -/
abbrev Time := ℤ

/-- A row of the `order` table. A column is `none` where the form field was not posted. -/
structure Order where
  serial : String
  ordertime : Time
  uid : ℤ
  username : String
  proid : Option String
  proname : Option String
  proprice : ℚ
  prostart : Time
  proend : Time
  platform : String
  platformSerial : String
  state : ℕ

/-- A row of the `user` table, without the columns that no payment touches. -/
structure User where
  id : ℤ
  quotaName : Option String
  quotaBytes : ℕ
  quotaUsed : ℕ
  quotaStart : Time
  quotaExpire : Time
  fund : ℚ
  enabled : ℕ
  level : ℕ
  active : ℕ
  -- the user who recruited this one, or a number that is not positive
  refered : ℤ
  bonus : ℚ

/-- The arguments of `update_quota` that its statement uses. -/
structure QuotaUpdate where
  uid : ℤ
  quotaName : Option String
  quotaBytes : ℕ
  quotaStart : Time
  quotaExpire : Time
  quotaPrice : ℚ

/-- What the site leaves to PHP and MySQL. -/
structure Platform where
  /-- What a `TIMESTAMP` column of the user table keeps of a date. -/
  timestamp : Time → Time
  /-- What the columns of the order table keep of a posted field; it is `none` if it was not
  posted. -/
  keepId : Option String → Option String
  keepName : Option String → Option String
  keepPrice : Option String → ℚ
  /-- What `mktime` and `date` make of a date, and a column of the order table keeps of it. -/
  keepDate : Time → Time
  /-- The integer for a float that is too large for one. -/
  undefinedInt : Binary64 → ℤ
  /-- What the statement of `update_quota` does to the users where the name ends its quotes. -/
  injected : QuotaUpdate → List Order → List User → List User

/-- The tables. -/
structure Db extends Platform where
  orders : List Order
  users : List User

variable {orders : List Order} {users : List User} {serial : String}

/-! ## `Order_mdl` -/

/-- The first row with this serial, or `none` for `FALSE`. -/
def getBySerial (orders : List Order) (serial : String) : Option Order :=
  lookup Order.serial orders serial

/-- `is_exist`: exactly one row has this serial. -/
def isExist (orders : List Order) (serial : String) : Bool :=
  orders.countP (fun o => o.serial = serial) = 1

/-- The columns that the `update` statement of `Order_mdl::update` sets. -/
def Order.setState (platform platformSerial : String) (status : ℕ) (o : Order) : Order :=
  { o with state := status, platform, platformSerial }

/-- The `update` statement of `Order_mdl::update`. -/
def Db.writeState (db : Db) (serial platform platformSerial : String) (status : ℕ) : Db :=
  { db with
    orders := write Order.serial serial (.setState platform platformSerial status) db.orders }

/-- `Order_mdl::update`, with the value it returns. -/
def Db.update (db : Db) (failed : Bool) (serial platform platformSerial : String) (status : ℕ) :
    ℤ × Db :=
  if isExist db.orders serial then
    (0, if failed then db else db.writeState serial platform platformSerial status)
  else (-1, db)

@[simp]
theorem setState_serial (platform platformSerial : String) (status : ℕ) (o : Order) :
    (o.setState platform platformSerial status).serial = o.serial := rfl

/-- A row that was written is found with its new state, the others as before. -/
theorem getBySerial_writeState (db : Db) (s serial platform platformSerial : String) (status : ℕ) :
    getBySerial (db.writeState s platform platformSerial status).orders serial =
      if serial = s then
        (getBySerial db.orders serial).map (.setState platform platformSerial status)
      else getBySerial db.orders serial :=
  lookup_write (setState_serial platform platformSerial status) db.orders s serial

/-! ## `User_mdl` -/

/-- The columns that the `update` statement of `update_quota` sets. -/
def User.setQuota (timestamp : Time → Time) (q : QuotaUpdate) (u : User) : User :=
  { u with
    quotaName := some (q.quotaName.getD ""), quotaBytes := q.quotaBytes, quotaUsed := 0
    quotaStart := timestamp q.quotaStart, quotaExpire := timestamp q.quotaExpire
    fund := u.fund + q.quotaPrice
    enabled := 1, level := 1, active := 1 }

section SetQuota

variable {timestamp : Time → Time} {q : QuotaUpdate} {u : User}

@[simp]
theorem setQuota_id : (u.setQuota timestamp q).id = u.id := rfl

@[simp]
theorem setQuota_fund : (u.setQuota timestamp q).fund = u.fund + q.quotaPrice := rfl

@[simp]
theorem setQuota_bonus : (u.setQuota timestamp q).bonus = u.bonus := rfl

@[simp]
theorem setQuota_quotaExpire :
    (u.setQuota timestamp q).quotaExpire = timestamp q.quotaExpire := rfl

end SetQuota

/-- The name has no quote and no backslash, so that it stays between the quotes of a statement. -/
def PlainName (name : Option String) : Prop :=
  ∀ c ∈ (name.getD "").toList, c ≠ '\x27' ∧ c ≠ '\x5c'

instance (name : Option String) : Decidable (PlainName name) :=
  List.decidableBAll _ _

/-- `update_quota`. The order number is only logged, and `$quota_cycle` is not used. -/
def Db.updateQuota (db : Db) (q : QuotaUpdate) : Db :=
  -- the name is pasted between quotes as it is
  if PlainName q.quotaName then
    { db with users := write User.id q.uid (.setQuota db.timestamp q) db.users }
  else { db with users := db.injected q db.orders db.users }

theorem updateQuota_of_plain {db : Db} {q : QuotaUpdate} (h : PlainName q.quotaName) :
    db.updateQuota q =
      { db with users := write User.id q.uid (.setQuota db.timestamp q) db.users } := if_pos h

@[simp]
theorem updateQuota_orders (db : Db) (q : QuotaUpdate) : (db.updateQuota q).orders = db.orders := by
  unfold Db.updateQuota
  split <;> rfl

/-- The read and the checks of `update_bonus`: the user to whom the bonus goes, if any. -/
def bonusRefer (users : List User) (refeeId : ℤ) (bonus : ℚ) : Option ℤ :=
  match lookup User.id users refeeId with
  -- without a row `$user['refered']` is `NULL`, and `NULL <= 0`
  | none => none
  | some user =>
    if user.refered ≤ 0 then none
    else if bonus < 0 ∨ 45 < bonus then none
    else some user.refered

/-- The column that the `update` statement of `update_bonus` sets. -/
def User.addBonus (bonus : ℚ) (u : User) : User := { u with bonus := u.bonus + bonus }

@[simp]
theorem addBonus_id (bonus : ℚ) (u : User) : (u.addBonus bonus).id = u.id := rfl

@[simp]
theorem addBonus_fund (bonus : ℚ) (u : User) : (u.addBonus bonus).fund = u.fund := rfl

@[simp]
theorem addBonus_bonus (bonus : ℚ) (u : User) : (u.addBonus bonus).bonus = u.bonus + bonus := rfl

@[simp]
theorem addBonus_quotaExpire (bonus : ℚ) (u : User) :
    (u.addBonus bonus).quotaExpire = u.quotaExpire := rfl

/-- The `update` statement of `update_bonus`. -/
def Db.writeBonus (db : Db) (referId : ℤ) (bonus : ℚ) : Db :=
  { db with users := write User.id referId (.addBonus bonus) db.users }

/-- `update_bonus`. -/
def Db.updateBonus (db : Db) (failed : Bool) (refeeId : ℤ) (bonus : ℚ) : Db :=
  match bonusRefer db.users refeeId bonus with
  | none => db
  | some referId => if failed then db else db.writeBonus referId bonus

end Gendo
