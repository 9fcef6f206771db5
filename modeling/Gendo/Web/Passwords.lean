import Gendo.Library.StepSystem
import Gendo.Web.Registration

/-!
# One password in two databases

The password of a user is in `user` for the one kind of VPN and in `radcheck` for the other, and
the functions of `User_mdl` change it in any order. The two agree as long as no call touches one
of them only: `passwordsAgree_iff` says for each call when it does. `mod_user`, which the form for
a user's data calls, changes `user` alone.
-/

namespace Gendo.UserMdl

open StepSystem Table

variable {κ : Type*} [DecidableEq κ]

/-- A call of `User_mdl` that changes users. -/
inductive UserCall
  | addUser (name pwd email nick : Text)
  | modUser (name pwd email nick : Text)
  | modUserNick (name nick : Text)
  | modUserEmail (name email : Text)
  | modUserPassword (name password : Text)
  | delOpenvpnUser (name : Text)
  | delRadiusUser (name : Text)
  deriving DecidableEq, Repr

/-- The tables after a call in which every statement succeeds. -/
def next (env : SqlEnv κ) (db : UserDbs) : UserCall → UserDbs
  | .addUser name pwd email nick => (addUser env .all name pwd email nick db).2
  | .modUser name pwd email nick => (modUser env name pwd email nick db).2
  | .modUserNick name nick => (modUserNick env name nick db).2
  | .modUserEmail name email => (modUserEmail env name email db).2
  | .modUserPassword name password => (modUserPassword env name password db).2
  | .delOpenvpnUser name => (delOpenvpnUser env name db).2
  | .delRadiusUser name => (delRadiusUser env name db).2

/-- The passwords that RADIUS finds for a name. -/
def checkValues (env : SqlEnv κ) (radcheck : List RadiusCheck) (username : Text) : List Text :=
  (select (radcheckName env) radcheck (env.radiusKey username)).map RadiusCheck.value

/-- RADIUS finds one password for every user, and that is the user's. -/
def PasswordsAgree (env : SqlEnv κ) (db : UserDbs) : Prop :=
  ∀ u ∈ db.user, checkValues env db.radcheck u.username = [u.password]

/-- The call leaves both passwords of every user alike, if they were. -/
def agreeGuard (env : SqlEnv κ) (db : UserDbs) : UserCall → Prop
  | .addUser name pwd _ _ => isUserExist env db name = false →
    (∀ u ∈ db.user, env.radiusKey u.username ≠ env.radiusKey (RADCHECK_USERNAME.keep name)) ∧
      if env.radiusKey (USER_USERNAME.keep name) = env.radiusKey (RADCHECK_USERNAME.keep name) then
        checkValues env db.radcheck (USER_USERNAME.keep name) = [] ∧
          RADCHECK_VALUE.keep pwd = USER_PASSWORD.keep pwd
      else checkValues env db.radcheck (USER_USERNAME.keep name) = [USER_PASSWORD.keep pwd]
  | .modUser name pwd _ _ =>
    ∀ u ∈ db.user, ovpnName env u = env.ovpnKey name → u.password = USER_PASSWORD.keep pwd
  | .modUserPassword name password => isUserExist env db name = true → ∀ u ∈ db.user,
    (if env.radiusKey u.username = env.radiusKey name then RADCHECK_VALUE.keep password
      else u.password) =
      if ovpnName env u = env.ovpnKey name then USER_PASSWORD.keep password else u.password
  | .delRadiusUser name => isUserExist env db name = true →
    ∀ u ∈ db.user, env.radiusKey u.username ≠ env.radiusKey name
  | .modUserNick .. | .modUserEmail .. | .delOpenvpnUser _ => True

section

variable {env : SqlEnv κ} {db : UserDbs} {name : Text}

/-! ## What RADIUS finds -/

theorem checkValues_append (radcheck : List RadiusCheck) (row : RadiusCheck) (username : Text) :
    checkValues env (radcheck ++ [row]) username = checkValues env radcheck username ++
      if env.radiusKey row.username = env.radiusKey username then [row.value] else [] := by
  rw [checkValues, checkValues, select_append, select_singleton, List.map_append, radcheckName]
  split_ifs
  · rfl
  · rfl

theorem checkValues_write (radcheck : List RadiusCheck) (value username : Text) (key : κ) :
    checkValues env (write (radcheckName env) key (fun r => { r with value := value }) radcheck)
        username =
      if env.radiusKey username = key then
        (checkValues env radcheck username).map fun _ => value
      else checkValues env radcheck username := by
  rw [checkValues, checkValues, select_write (by exact fun r => rfl)]
  split_ifs
  · rw [List.map_map, List.map_map]
    rfl
  · rfl

theorem checkValues_delete (radcheck : List RadiusCheck) (username : Text) (key : κ) :
    checkValues env (delete (radcheckName env) key radcheck) username =
      if env.radiusKey username = key then [] else checkValues env radcheck username := by
  split_ifs with heq
  · rw [checkValues, heq, select_delete_self, List.map_nil]
  · rw [checkValues, checkValues, select_delete_of_ne heq]

/-! ## One call -/

/-- The `mod_user` functions write to the rows of the name, of which there may be none. -/
theorem modify_snd (name : Text) (f : OvpnUser → OvpnUser) (db : UserDbs) :
    (modify env name f db).2 =
      { db with user := write (ovpnName env) (env.ovpnKey name) f db.user } := by
  rw [modify]
  split_ifs with hexist
  · rw [Bool.not_eq_true', isUserExist_eq_false_iff] at hexist
    rw [write_eq_self hexist]
  · rfl

/-- The users after a write. -/
theorem agree_modify_iff (f : OvpnUser → OvpnUser) (radcheck : List RadiusCheck) :
    (∀ u ∈ write (ovpnName env) (env.ovpnKey name) f db.user,
        checkValues env radcheck u.username = [u.password]) ↔
      ∀ u ∈ db.user,
        checkValues env radcheck (if ovpnName env u = env.ovpnKey name then f u else u).username =
          [(if ovpnName env u = env.ovpnKey name then f u else u).password] := by
  rw [write, List.forall_mem_map]

/-- A write that leaves names and passwords. -/
theorem agree_modify (f : OvpnUser → OvpnUser) (hname : ∀ u, (f u).username = u.username)
    (hpassword : ∀ u, (f u).password = u.password) (h : PasswordsAgree env db) :
    PasswordsAgree env (modify env name f db).2 := by
  rw [modify_snd, PasswordsAgree, agree_modify_iff]
  intro u hu
  split_ifs
  · rw [hname, hpassword]
    exact h u hu
  · exact h u hu

/-- A new user agrees with RADIUS, and RADIUS finds no second password for the others. -/
theorem agree_addUser_iff (pwd email nick : Text) (h : PasswordsAgree env db) :
    PasswordsAgree env (addUser env .all name pwd email nick db).2 ↔
      agreeGuard env db (.addUser name pwd email nick) := by
  by_cases hexist : isUserExist env db name = true
  · simp [addUser, hexist, agreeGuard, h]
  rw [Bool.not_eq_true] at hexist
  rw [addUser_all _ _ _ (isUserExist_eq_false_iff.mp hexist)]
  -- the new row is found for an old user exactly if the keys are the same
  have hold : (∀ u ∈ db.user,
        checkValues env (db.radcheck ++ [radcheckRow name pwd]) u.username = [u.password]) ↔
      ∀ u ∈ db.user, env.radiusKey u.username ≠ env.radiusKey (RADCHECK_USERNAME.keep name) := by
    refine forall₂_congr fun u hu => ?_
    rw [checkValues_append, h u hu, radcheckRow]
    split_ifs with heq
    · simp [heq]
    · simp [Ne.symm heq]
  have hnew : checkValues env (db.radcheck ++ [radcheckRow name pwd]) (USER_USERNAME.keep name) =
        [USER_PASSWORD.keep pwd] ↔
      if env.radiusKey (USER_USERNAME.keep name) = env.radiusKey (RADCHECK_USERNAME.keep name) then
        checkValues env db.radcheck (USER_USERNAME.keep name) = [] ∧
          RADCHECK_VALUE.keep pwd = USER_PASSWORD.keep pwd
      else checkValues env db.radcheck (USER_USERNAME.keep name) = [USER_PASSWORD.keep pwd] := by
    rw [checkValues_append, radcheckRow]
    split_ifs with hrow hcol hcol
    · simp [List.append_eq_singleton_iff]
    · exact absurd hrow.symm hcol
    · exact absurd hcol.symm hrow
    · rw [List.append_nil]
  calc PasswordsAgree env (db.added name pwd email nick)
      ↔ (∀ u ∈ db.user,
            checkValues env (db.radcheck ++ [radcheckRow name pwd]) u.username = [u.password]) ∧
          checkValues env (db.radcheck ++ [radcheckRow name pwd]) (USER_USERNAME.keep name) =
            [USER_PASSWORD.keep pwd] := by
        simp [PasswordsAgree, UserDbs.added, or_imp, forall_and, ovpnRow]
    _ ↔ agreeGuard env db (.addUser name pwd email nick) := by
        rw [hold, hnew, agreeGuard, hexist]
        simp only [forall_const]

theorem agree_modUser_iff (pwd email nick : Text) (h : PasswordsAgree env db) :
    PasswordsAgree env (modUser env name pwd email nick db).2 ↔
      agreeGuard env db (.modUser name pwd email nick) := by
  rw [modUser, modify_snd, PasswordsAgree, agree_modify_iff]
  refine forall₂_congr fun u hu => ?_
  split_ifs with hname
  · simp [h u hu, hname]
  · simp [h u hu, hname]

theorem agree_modUserPassword_iff (password : Text) (h : PasswordsAgree env db) :
    PasswordsAgree env (modUserPassword env name password db).2 ↔
      agreeGuard env db (.modUserPassword name password) := by
  by_cases hexist : isUserExist env db name = true
  swap
  · simp [modUserPassword, modify, hexist, agreeGuard, h]
  simp only [modUserPassword, hexist, Bool.not_true, Bool.false_eq_true, if_false, modify_snd,
    PasswordsAgree, agreeGuard, forall_const]
  rw [agree_modify_iff]
  refine forall₂_congr fun u hu => ?_
  have hname : (if ovpnName env u = env.ovpnKey name then
      { u with password := USER_PASSWORD.keep password } else u).username = u.username := by
    split_ifs
    · rfl
    · rfl
  rw [hname, checkValues_write, h u hu]
  split_ifs
  · simp
  · simp
  · simp
  · simp

theorem agree_delOpenvpnUser (h : PasswordsAgree env db) :
    PasswordsAgree env (delOpenvpnUser env name db).2 := by
  rw [delOpenvpnUser]
  split_ifs
  · exact h
  · exact fun u hu => h u (mem_delete.mp hu).1

theorem agree_delRadiusUser_iff (h : PasswordsAgree env db) :
    PasswordsAgree env (delRadiusUser env name db).2 ↔
      agreeGuard env db (.delRadiusUser name) := by
  by_cases hexist : isUserExist env db name = true
  swap
  · simp [delRadiusUser, agreeGuard, hexist, h]
  simp only [delRadiusUser, hexist, Bool.not_true, Bool.false_eq_true, if_false, PasswordsAgree,
    agreeGuard, forall_const]
  refine forall₂_congr fun u hu => ?_
  rw [checkValues_delete, h u hu]
  split_ifs with heq
  · simp [heq]
  · simp [heq]

/-- For a call that starts from passwords that agree, they do afterwards where the guard says. -/
theorem agree_next_iff (call : UserCall) (h : PasswordsAgree env db) :
    PasswordsAgree env (next env db call) ↔ agreeGuard env db call := by
  cases call with
  | addUser name pwd email nick => exact agree_addUser_iff pwd email nick h
  | modUser name pwd email nick => exact agree_modUser_iff pwd email nick h
  | modUserNick name nick =>
    exact iff_of_true (agree_modify _ (fun _ => rfl) (fun _ => rfl) h) trivial
  | modUserEmail name email =>
    exact iff_of_true (agree_modify _ (fun _ => rfl) (fun _ => rfl) h) trivial
  | modUserPassword name password => exact agree_modUserPassword_iff password h
  | delOpenvpnUser name => exact iff_of_true (agree_delOpenvpnUser h) trivial
  | delRadiusUser name => exact agree_delRadiusUser_iff h

end

/-- From empty tables on the passwords agree all the time exactly if no call of the sequence
touches one of them only. -/
theorem passwordsAgree_iff (env : SqlEnv κ) (calls : List UserCall) :
    Always (PasswordsAgree env) .empty (runOf (next env) .empty calls) ↔
      Guarded (agreeGuard env) .empty (runOf (next env) .empty calls) := by
  have hself : ∀ db, PasswordsAgree env db → PasswordsAgree env db := fun _ h => h
  refine always_iff_guarded hself ?_ ?_ nofun (isRun_runOf (next env) .empty calls)
  · rintro db call _ h rfl hguard
    exact (agree_next_iff call h).mpr hguard
  · rintro db call _ h rfl hagree
    exact (agree_next_iff call h).mp hagree

/-- A user who changes the password with `mod_user`. -/
theorem not_passwordsAgree_modUser :
    ¬∀ calls, Always (PasswordsAgree (caseless false)) .empty
      (runOf (next (caseless false)) .empty calls) := by
  intro h
  have hlast := (h [.addUser ['a'] ['p'] ['e'] ['n'], .modUser ['a'] ['q'] ['e'] ['n']]).last
  have hone := hlast ⟨['a'], ['q'], ['n'], ['e']⟩ (by decide)
  exact absurd hone (by decide)

end Gendo.UserMdl
