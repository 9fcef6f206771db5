import Gendo.Library.Table
import Gendo.Web.Register

/-!
# Users in two databases

`User_mdl` keeps a user in the table `user` of the database `openvpn`, and in the tables
`userinfo`, `radcheck` and `radusergroup` of the database `radius`. Each statement is a step of
its own: there is no transaction, and `add_user` undoes by hand what it did before a statement
failed. A statement that fails changes nothing; with `db_debug` it ends the script as well.

Which names are the same is decided by the collation of the table, and what a column keeps of a
text by its kind and its width. A collation is given by its weights, `ovpnKey` and `radiusKey`:
two texts are the same if they weigh the same.
-/

namespace Gendo.UserMdl

open Table

/-- A text of PHP. -/
abbrev Text := List Char

/-- The two collations, and the setting `db_debug` of the two connections. -/
structure SqlEnv (κ : Type*) where
  /-- `utf8_unicode_ci`, the collation of `openvpn`. -/
  ovpnKey : Text → κ
  /-- `utf8_general_ci`, the collation of `radius`. -/
  radiusKey : Text → κ
  dbDebug : Bool

/-- A row of `user`, as far as `User_mdl` changes it later. -/
structure OvpnUser where
  username : Text
  password : Text
  name : Text
  email : Text
  deriving DecidableEq

/-- A row of `userinfo`; the other columns are the same for all users, but for the dates. -/
structure RadiusUser where
  username : Text
  deriving DecidableEq

/-- A row of `radcheck`, which has the attribute `Cleartext-Password` and the operator `:=`. -/
structure RadiusCheck where
  username : Text
  value : Text
  deriving DecidableEq

/-- A row of `radusergroup`, which puts the user into the group `user`. -/
structure RadiusGroup where
  username : Text
  deriving DecidableEq

/-- The four tables. -/
structure UserDbs where
  user : List OvpnUser
  userinfo : List RadiusUser
  radcheck : List RadiusCheck
  radusergroup : List RadiusGroup
  deriving DecidableEq

/-! The character columns of `radius`. -/

def USERINFO_USERNAME : TextColumn.Column := ⟨.varchar, 128⟩
def RADCHECK_USERNAME : TextColumn.Column := ⟨.varchar, 64⟩
def RADCHECK_VALUE : TextColumn.Column := ⟨.varchar, 253⟩
def RADUSERGROUP_USERNAME : TextColumn.Column := ⟨.varchar, 64⟩

/-- Which of the four `insert` statements of `add_user` succeed. -/
structure Inserts where
  user : Bool
  userinfo : Bool
  radcheck : Bool
  radusergroup : Bool
  deriving DecidableEq, Repr

/-- Every statement succeeds. -/
def Inserts.all : Inserts := ⟨true, true, true, true⟩

/-- The array that `add_user` and the `mod_user` functions return. -/
structure UserRet where
  ret : ℤ
  error : String
  deriving DecidableEq, Repr

/-- Tables without rows. -/
def UserDbs.empty : UserDbs := ⟨[], [], [], []⟩

section Statements

variable {κ : Type*} [DecidableEq κ] (env : SqlEnv κ)

/-- The weight by which `user` finds a row. -/
def ovpnName (u : OvpnUser) : κ := env.ovpnKey u.username

/-- The weight by which `userinfo` finds a row. -/
def userinfoName (r : RadiusUser) : κ := env.radiusKey r.username

/-- The weight by which `radcheck` finds a row. -/
def radcheckName (r : RadiusCheck) : κ := env.radiusKey r.username

/-- The weight by which `radusergroup` finds a row. -/
def groupName (r : RadiusGroup) : κ := env.radiusKey r.username

/-- `is_user_exist`. -/
def isUserExist (db : UserDbs) (name : Text) : Bool :=
  (select (ovpnName env) db.user (env.ovpnKey name)).length ≠ 0

/-- What a function returns after an `insert` that failed: -1, or nothing where `display_error`
ends the script. -/
def failed : Option ℤ := if env.dbDebug then none else some (-1)

/-- The row that `add_openvpn_user` inserts. -/
def ovpnRow (name pwd email nick : Text) : OvpnUser where
  username := USER_USERNAME.keep name
  password := USER_PASSWORD.keep pwd
  name := USER_NAME.keep nick
  email := USER_EMAIL.keep email

/-! The rows that `add_radius_user` inserts. -/

def userinfoRow (name : Text) : RadiusUser := ⟨USERINFO_USERNAME.keep name⟩
def radcheckRow (name pwd : Text) : RadiusCheck :=
  ⟨RADCHECK_USERNAME.keep name, RADCHECK_VALUE.keep pwd⟩
def groupRow (name : Text) : RadiusGroup := ⟨RADUSERGROUP_USERNAME.keep name⟩

/-- `add_openvpn_user`. -/
def addOpenvpnUser (ok : Inserts) (name pwd email nick : Text) (db : UserDbs) :
    Option ℤ × UserDbs :=
  if !ok.user then (failed env, db)
  else (some 0, { db with user := db.user ++ [ovpnRow name pwd email nick] })

/-- `add_radius_user`. -/
def addRadiusUser (ok : Inserts) (name pwd : Text) (db : UserDbs) : Option ℤ × UserDbs :=
  if !ok.userinfo then (failed env, db)
  else
    let db := { db with userinfo := db.userinfo ++ [userinfoRow name] }
    if !ok.radcheck then (failed env, db)
    else
      let db := { db with radcheck := db.radcheck ++ [radcheckRow name pwd] }
      if !ok.radusergroup then (failed env, db)
      else (some 0, { db with radusergroup := db.radusergroup ++ [groupRow name] })

/-- `del_openvpn_user`. -/
def delOpenvpnUser (name : Text) (db : UserDbs) : ℤ × UserDbs :=
  if !isUserExist env db name then (-1, db)
  else
    let left := delete (ovpnName env) (env.ovpnKey name) db.user
    (if left.length < db.user.length then 0 else -1, { db with user := left })

/-- `del_radius_user`, which asks the other database whether there is such a user. -/
def delRadiusUser (name : Text) (db : UserDbs) : ℤ × UserDbs :=
  if !isUserExist env db name then (-1, db)
  else
    let key := env.radiusKey name
    let left := delete (groupName env) key db.radusergroup
    (if left.length < db.radusergroup.length then 0 else -1, { db with
      userinfo := delete (userinfoName env) key db.userinfo
      radcheck := delete (radcheckName env) key db.radcheck
      radusergroup := left })

/-- `add_user`, with the value that it returns unless the script ends before. -/
def addUser (ok : Inserts) (name pwd email nick : Text) (db : UserDbs) :
    Option UserRet × UserDbs :=
  if isUserExist env db name then (some ⟨-1, "用户已经存在"⟩, db)
  else
    match addOpenvpnUser env ok name pwd email nick db with
    | (none, db) => (none, db)
    | (some ret, db) =>
      if ret ≠ 0 then (some ⟨-1, "加入OpenVPN失败"⟩, db)
      else
        match addRadiusUser env ok name pwd db with
        | (none, db) => (none, db)
        | (some ret, db) =>
          -- what is undone is the row of `user`; the rows of `radius` stay
          if ret ≠ 0 then (some ⟨-1, "加入RADIUS失败"⟩, (delOpenvpnUser env name db).2)
          else (some ⟨0, "创建成功"⟩, db)

/-- What the `mod_user` functions have in common: a check and an `update` of `user`. -/
def modify (name : Text) (f : OvpnUser → OvpnUser) (db : UserDbs) : UserRet × UserDbs :=
  if !isUserExist env db name then (⟨-1, "用户不存在"⟩, db)
  else
    (⟨0, "修改成功"⟩, { db with user := write (ovpnName env) (env.ovpnKey name) f db.user })

/-- `mod_user`. -/
def modUser (name pwd email nick : Text) : UserDbs → UserRet × UserDbs :=
  modify env name fun u => { u with
    password := USER_PASSWORD.keep pwd
    email := USER_EMAIL.keep email
    name := USER_NAME.keep nick }

/-- `mod_user_nick`. -/
def modUserNick (name nick : Text) : UserDbs → UserRet × UserDbs :=
  modify env name fun u => { u with name := USER_NAME.keep nick }

/-- `mod_user_email`. -/
def modUserEmail (name email : Text) : UserDbs → UserRet × UserDbs :=
  modify env name fun u => { u with email := USER_EMAIL.keep email }

/-- `mod_user_password`, the only one that changes `radcheck` as well. -/
def modUserPassword (name password : Text) (db : UserDbs) : UserRet × UserDbs :=
  let done := modify env name (fun u => { u with password := USER_PASSWORD.keep password }) db
  if !isUserExist env db name then done
  else
    (done.1, { done.2 with
      radcheck := write (radcheckName env) (env.radiusKey name)
        (fun r => { r with value := RADCHECK_VALUE.keep password }) done.2.radcheck })

end Statements

/-! ## The functions -/

section Functions

variable {κ : Type*} [DecidableEq κ] {env : SqlEnv κ} {db : UserDbs} {name : Text}

/-- A user is found by the rows of its name. -/
theorem isUserExist_eq_false_iff :
    isUserExist env db name = false ↔ select (ovpnName env) db.user (env.ovpnKey name) = [] := by
  simp [isUserExist]

theorem isUserExist_iff :
    isUserExist env db name = true ↔ ∃ u ∈ db.user, ovpnName env u = env.ovpnKey name := by
  rw [← Bool.not_eq_false, isUserExist_eq_false_iff, select_eq_nil_iff]
  simp

end Functions

end Gendo.UserMdl
