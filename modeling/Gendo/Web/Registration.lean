import Gendo.Web.UserMdl

/-!
# Registering in both databases

`add_user` inserts four rows, and any of the four statements may fail. A registration is atomic
if it leaves a row in every table or in none, and if a failed one can be repeated. `atomic_iff`
says when: every statement succeeds, or the first one fails, or the second one fails and the
script goes on to take the first row back. What was inserted into `radius` is never taken back,
and a script that `db_debug` ends takes nothing back.
-/

namespace Gendo.UserMdl

open Table

variable {κ : Type*} [DecidableEq κ]

/-- The name has a row in all four tables. -/
def Present (env : SqlEnv κ) (db : UserDbs) (name : Text) : Prop :=
  select (ovpnName env) db.user (env.ovpnKey name) ≠ [] ∧
    select (userinfoName env) db.userinfo (env.radiusKey name) ≠ [] ∧
    select (radcheckName env) db.radcheck (env.radiusKey name) ≠ [] ∧
    select (groupName env) db.radusergroup (env.radiusKey name) ≠ []

/-- The name has a row in none of them. -/
structure Absent (env : SqlEnv κ) (db : UserDbs) (name : Text) : Prop where
  user : select (ovpnName env) db.user (env.ovpnKey name) = []
  userinfo : select (userinfoName env) db.userinfo (env.radiusKey name) = []
  radcheck : select (radcheckName env) db.radcheck (env.radiusKey name) = []
  radusergroup : select (groupName env) db.radusergroup (env.radiusKey name) = []

/-- The name has one row in each table, with this password. -/
structure Registered (env : SqlEnv κ) (db : UserDbs) (name pwd : Text) : Prop where
  user : (select (ovpnName env) db.user (env.ovpnKey name)).map OvpnUser.password =
    [USER_PASSWORD.keep pwd]
  userinfo : (select (userinfoName env) db.userinfo (env.radiusKey name)).length = 1
  radcheck : (select (radcheckName env) db.radcheck (env.radiusKey name)).map RadiusCheck.value =
    [RADCHECK_VALUE.keep pwd]
  radusergroup : (select (groupName env) db.radusergroup (env.radiusKey name)).length = 1

/-- The registration succeeds where every statement does, whatever the new password is. -/
def Repeatable (env : SqlEnv κ) (db : UserDbs) (name : Text) : Prop :=
  ∀ pwd email nick, let again := addUser env .all name pwd email nick db
    again.1.map UserRet.ret = some 0 ∧ Registered env again.2 name pwd

/-- All or nothing, and a registration that did not succeed can be repeated. -/
def Atomic (env : SqlEnv κ) (ok : Inserts) (name pwd email nick : Text) (db : UserDbs) : Prop :=
  let done := addUser env ok name pwd email nick db
  (done.1.map UserRet.ret = some 0 → Present env done.2 name) ∧
    (done.1.map UserRet.ret = some (-1) → Absent env done.2 name) ∧
    (done.1.map UserRet.ret ≠ some 0 → Repeatable env done.2 name)

/-- What the columns keep of the name is still the name. -/
structure NameKept (env : SqlEnv κ) (name : Text) : Prop where
  user : env.ovpnKey (USER_USERNAME.keep name) = env.ovpnKey name
  userinfo : env.radiusKey (USERINFO_USERNAME.keep name) = env.radiusKey name
  radcheck : env.radiusKey (RADCHECK_USERNAME.keep name) = env.radiusKey name
  radusergroup : env.radiusKey (RADUSERGROUP_USERNAME.keep name) = env.radiusKey name

/-- All statements succeed, or what was done before the first that fails is taken back. -/
def TakenBack (dbDebug : Bool) (ok : Inserts) : Prop :=
  ok = .all ∨ ok.user = false ∨ (ok.userinfo = false ∧ dbDebug = false)

/-- The tables with the rows of a new user. -/
def UserDbs.added (db : UserDbs) (name pwd email nick : Text) : UserDbs where
  user := db.user ++ [ovpnRow name pwd email nick]
  userinfo := db.userinfo ++ [userinfoRow name]
  radcheck := db.radcheck ++ [radcheckRow name pwd]
  radusergroup := db.radusergroup ++ [groupRow name]

/-- The tables of `radius` in `db'` are those of `db` with what `add_radius_user` inserts until a
statement fails. -/
structure RadiusPart (ok : Inserts) (name pwd : Text) (db db' : UserDbs) : Prop where
  userinfo : db'.userinfo = if ok.userinfo then db.userinfo ++ [userinfoRow name] else db.userinfo
  radcheck : db'.radcheck =
    if ok.userinfo && ok.radcheck then db.radcheck ++ [radcheckRow name pwd] else db.radcheck
  radusergroup : db'.radusergroup =
    if ok.userinfo && ok.radcheck && ok.radusergroup then db.radusergroup ++ [groupRow name]
    else db.radusergroup

section

variable {env : SqlEnv κ} {ok : Inserts} {name : Text} {db : UserDbs}

/-! ## What a registration does -/

/-- Of the statements on `radius` one fails, if any does and that on `user` does not. -/
theorem not_radius_of_ne_all (hok : ok ≠ .all) (huser : ok.user = true) :
    ¬(ok.userinfo = true ∧ ok.radcheck = true ∧ ok.radusergroup = true) := by
  rintro ⟨hinfo, hcheck, hgroup⟩
  obtain ⟨user, userinfo, radcheck, radusergroup⟩ := ok
  exact hok (by simp_all [Inserts.all])

/-- A registration in which every statement succeeds. -/
theorem addUser_all (pwd email nick : Text)
    (hfree : select (ovpnName env) db.user (env.ovpnKey name) = []) :
    addUser env .all name pwd email nick db =
      (some ⟨0, "创建成功"⟩, db.added name pwd email nick) := by
  rw [addUser, isUserExist_eq_false_iff.mpr hfree]
  rfl

/-- A registration that fails at once changes nothing. -/
theorem addUser_of_user_failed (pwd email nick : Text)
    (hfree : select (ovpnName env) db.user (env.ovpnKey name) = []) (hok : ok.user = false) :
    (addUser env ok name pwd email nick db).1.map UserRet.ret = failed env ∧
      (addUser env ok name pwd email nick db).2 = db := by
  rw [addUser, isUserExist_eq_false_iff.mpr hfree]
  cases hdebug : env.dbDebug with
  | false => simp [addOpenvpnUser, failed, hok, hdebug]
  | true => simp [addOpenvpnUser, failed, hok, hdebug]

omit [DecidableEq κ] in
/-- `add_radius_user` fails with the first of its statements that does. -/
theorem addRadiusUser_failed (pwd : Text)
    (hok : ¬(ok.userinfo = true ∧ ok.radcheck = true ∧ ok.radusergroup = true)) :
    (addRadiusUser env ok name pwd db).1 = failed env := by
  simp only [addRadiusUser]
  split_ifs with hinfo hcheck hgroup
  · rfl
  · rfl
  · rfl
  · simp only [Bool.not_eq_true, Bool.not_eq_false'] at hinfo hcheck hgroup
    exact absurd ⟨hinfo, hcheck, hgroup⟩ hok

omit [DecidableEq κ] in
/-- What `add_radius_user` inserts, and that the row of `user` is no business of it. -/
theorem addRadiusUser_part (env : SqlEnv κ) (ok : Inserts) (name pwd : Text) (db : UserDbs) :
    (addRadiusUser env ok name pwd db).2.user = db.user ∧
      RadiusPart ok name pwd db (addRadiusUser env ok name pwd db).2 := by
  obtain ⟨user, userinfo, radcheck, radusergroup⟩ := ok
  cases userinfo with
  | false => exact ⟨rfl, rfl, rfl, rfl⟩
  | true =>
    cases radcheck with
    | false => exact ⟨rfl, rfl, rfl, rfl⟩
    | true =>
      cases radusergroup with
      | false => exact ⟨rfl, rfl, rfl, rfl⟩
      | true => exact ⟨rfl, rfl, rfl, rfl⟩

/-- Taking back the row of `user` leaves the rows of `radius`. -/
theorem delOpenvpnUser_part {pwd : Text} {db' : UserDbs} (h : RadiusPart ok name pwd db db') :
    RadiusPart ok name pwd db (delOpenvpnUser env name db').2 := by
  rw [delOpenvpnUser]
  split_ifs
  · exact h
  · exact ⟨h.userinfo, h.radcheck, h.radusergroup⟩

/-- A registration that fails in `radius`: the row of `user` is taken back, if the script goes
on. -/
theorem addUser_of_radius_failed (pwd email nick : Text)
    (hfree : select (ovpnName env) db.user (env.ovpnKey name) = []) (huser : ok.user = true)
    (hok : ¬(ok.userinfo = true ∧ ok.radcheck = true ∧ ok.radusergroup = true)) :
    ∃ db', db'.user = db.user ++ [ovpnRow name pwd email nick] ∧
      RadiusPart ok name pwd db db' ∧
      (addUser env ok name pwd email nick db).1.map UserRet.ret = failed env ∧
      (addUser env ok name pwd email nick db).2 =
        if env.dbDebug then db' else (delOpenvpnUser env name db').2 := by
  let db₁ := { db with user := db.user ++ [ovpnRow name pwd email nick] }
  obtain ⟨husers, hpart⟩ := addRadiusUser_part env ok name pwd db₁
  have hret : (addRadiusUser env ok name pwd db₁).1 = failed env := addRadiusUser_failed pwd hok
  have hdone : addRadiusUser env ok name pwd db₁ =
      (failed env, (addRadiusUser env ok name pwd db₁).2) := Prod.ext hret rfl
  refine ⟨_, husers, ⟨hpart.userinfo, hpart.radcheck, hpart.radusergroup⟩, ?_⟩
  rw [addUser, isUserExist_eq_false_iff.mpr hfree]
  simp only [addOpenvpnUser, huser, Bool.not_true, Bool.false_eq_true, if_false, ne_eq,
    not_true_eq_false]
  rw [hdone]
  cases hdebug : env.dbDebug with
  | false => simp [failed, hdebug]
  | true => simp [failed, hdebug]

/-- Where the second statement fails nothing gets into `radius`. -/
theorem RadiusPart.eq_of_none {pwd : Text} {db' : UserDbs} (h : RadiusPart ok name pwd db db')
    (hinfo : ok.userinfo = false) (huser : db'.user = db.user) : db' = db := by
  obtain ⟨hinfo', hcheck', hgroup'⟩ := h
  simp only [hinfo, Bool.false_and, Bool.false_eq_true, if_false] at hinfo' hcheck' hgroup'
  cases db'
  simp_all

/-- The row of `user` that was inserted is taken back. -/
theorem delOpenvpnUser_user {pwd email nick : Text} {db' : UserDbs}
    (hfree : select (ovpnName env) db.user (env.ovpnKey name) = []) (hkept : NameKept env name)
    (huser : db'.user = db.user ++ [ovpnRow name pwd email nick]) :
    (delOpenvpnUser env name db').2.user = db.user := by
  have hkey : ovpnName env (ovpnRow name pwd email nick) = env.ovpnKey name := hkept.user
  have hexist : isUserExist env db' name = true := by
    rw [isUserExist_iff, huser]
    exact ⟨_, List.mem_append_right _ (List.mem_singleton_self _), hkey⟩
  simp only [delOpenvpnUser, hexist, Bool.not_true, Bool.false_eq_true, if_false, huser]
  exact delete_append_singleton hfree hkey

/-! ## Repeating it -/

/-- One row is added to a table in which the name had none. -/
theorem select_added {ρ : Type*} {key : ρ → κ} {rows : List ρ} {k : κ} {r : ρ}
    (hfree : select key rows k = []) (hr : key r = k) : select key (rows ++ [r]) k = [r] := by
  rw [select_append, hfree, select_singleton, if_pos hr, List.nil_append]

/-- A row under another name is not found. -/
theorem key_of_select_append {ρ : Type*} {key : ρ → κ} {rows : List ρ} {k : κ} {r : ρ}
    (hfree : select key rows k = []) (h : select key (rows ++ [r]) k ≠ []) : key r = k := by
  by_contra hne
  rw [select_append, hfree, select_singleton, if_neg hne] at h
  exact h rfl

/-- A name without rows has one in each table afterwards. -/
theorem registered_added (pwd email nick : Text) (h : Absent env db name)
    (hkept : NameKept env name) :
    Registered env (db.added name pwd email nick) name pwd where
  user := congrArg (List.map OvpnUser.password)
    (select_added (r := ovpnRow name pwd email nick) h.user hkept.user)
  userinfo := congrArg List.length
    (select_added (r := userinfoRow name) h.userinfo hkept.userinfo)
  radcheck := congrArg (List.map RadiusCheck.value)
    (select_added (r := radcheckRow name pwd) h.radcheck hkept.radcheck)
  radusergroup := congrArg List.length
    (select_added (r := groupRow name) h.radusergroup hkept.radusergroup)

theorem Registered.present {pwd : Text} (h : Registered env db name pwd) : Present env db name := by
  refine ⟨fun hnil => ?_, fun hnil => ?_, fun hnil => ?_, fun hnil => ?_⟩
  · simpa [hnil] using h.user
  · simpa [hnil] using h.userinfo
  · simpa [hnil] using h.radcheck
  · simpa [hnil] using h.radusergroup

/-- A name without rows can be registered. -/
theorem repeatable_of_absent (h : Absent env db name) (hkept : NameKept env name) :
    Repeatable env db name := by
  intro pwd email nick
  dsimp only
  rw [addUser_all _ _ _ h.user]
  exact ⟨rfl, registered_added pwd email nick h hkept⟩

/-! ## When a registration is atomic -/

/-- A registration is atomic where the rows of a failed one are taken back. -/
theorem atomic_of_takenBack (pwd email nick : Text) (h : Absent env db name)
    (hkept : NameKept env name) (hok : TakenBack env.dbDebug ok) :
    Atomic env ok name pwd email nick db := by
  -- a registration that fails leaves the tables as they were
  have hsame : ∀ done : Option UserRet × UserDbs, done.1.map UserRet.ret = failed env →
      done.2 = db →
      (done.1.map UserRet.ret = some 0 → Present env done.2 name) ∧
        (done.1.map UserRet.ret = some (-1) → Absent env done.2 name) ∧
        (done.1.map UserRet.ret ≠ some 0 → Repeatable env done.2 name) := by
    rintro done hret rfl
    refine ⟨fun hzero => ?_, fun _ => h, fun _ => repeatable_of_absent h hkept⟩
    rw [hret, failed] at hzero
    split_ifs at hzero
    simp at hzero
  by_cases hall : ok = .all
  · subst hall
    rw [Atomic, addUser_all _ _ _ h.user]
    refine ⟨fun _ => (registered_added pwd email nick h hkept).present, ?_, ?_⟩
    · simp
    · simp
  by_cases huser : ok.user = true
  · rcases hok with hall' | huser' | ⟨hinfo, hdebug⟩
    · exact absurd hall' hall
    · rw [huser] at huser'
      cases huser'
    obtain ⟨db', hrow, hpart, hret, hdb⟩ := addUser_of_radius_failed pwd email nick
      h.user huser (not_radius_of_ne_all hall huser)
    refine hsame _ hret ?_
    rw [hdb, if_neg (by simp [hdebug])]
    exact (delOpenvpnUser_part hpart).eq_of_none hinfo (delOpenvpnUser_user h.user hkept hrow)
  · obtain ⟨hret, hdb⟩ := addUser_of_user_failed pwd email nick h.user (by simpa using huser)
    exact hsame _ hret hdb

/-- A registration with a statement that fails does not return 0. -/
theorem ret_ne_zero_of_ne_all (pwd email nick : Text)
    (hfree : select (ovpnName env) db.user (env.ovpnKey name) = [])
    (hok : ok ≠ .all) : (addUser env ok name pwd email nick db).1.map UserRet.ret ≠ some 0 := by
  have hret : (addUser env ok name pwd email nick db).1.map UserRet.ret = failed env := by
    by_cases huser : ok.user = true
    · obtain ⟨-, -, -, hret, -⟩ := addUser_of_radius_failed pwd email nick
        hfree huser (not_radius_of_ne_all hok huser)
      exact hret
    · exact (addUser_of_user_failed pwd email nick hfree (by simpa using huser)).1
  rw [hret, failed]
  split_ifs
  · simp
  · simp

/-- What is there after a failed registration, beside the row of `user`. -/
theorem addUser_part (pwd email nick : Text)
    (hfree : select (ovpnName env) db.user (env.ovpnKey name) = [])
    (hok : ok ≠ .all) :
    (addUser env ok name pwd email nick db).2 = db ∨
      RadiusPart ok name pwd db (addUser env ok name pwd email nick db).2 := by
  by_cases huser : ok.user = true
  · obtain ⟨db', -, hpart, -, hdb⟩ := addUser_of_radius_failed pwd email nick
      hfree huser (not_radius_of_ne_all hok huser)
    rw [hdb]
    split_ifs
    · exact .inr hpart
    · exact .inr (delOpenvpnUser_part hpart)
  · exact .inl (addUser_of_user_failed pwd email nick hfree (by simpa using huser)).2

/-- A row is found where there was none, and where perhaps the same row was added before. -/
theorem key_of_select_added {ρ : Type*} {key : ρ → κ} {rows rows' : List ρ} {k : κ}
    {r r' : ρ} {b : Bool} (hfree : select key rows k = [])
    (hrows : rows' = if b then rows ++ [r'] else rows) (hr' : key r' = key r)
    (h : select key (rows' ++ [r]) k ≠ []) : key r = k := by
  cases b with
  | false =>
    subst hrows
    exact key_of_select_append hfree h
  | true =>
    by_contra hne
    rw [hrows, if_pos rfl, select_append, select_append, hfree, select_singleton,
      select_singleton, if_neg hne, if_neg (hr' ▸ hne)] at h
    exact h rfl

/-- A name that can be registered again is kept by the columns. -/
theorem nameKept_of_repeatable (pwd email nick : Text) (h : Absent env db name) (hok : ok ≠ .all)
    (hagain : Repeatable env (addUser env ok name pwd email nick db).2 name) :
    NameKept env name := by
  have hpart := addUser_part pwd email nick h.user hok
  generalize (addUser env ok name pwd email nick db).2 = db' at hagain hpart
  obtain ⟨hret, hrows⟩ := hagain pwd email nick
  -- it succeeds, so there is no row of `user`
  have hfree : select (ovpnName env) db'.user (env.ovpnKey name) = [] := by
    rw [← isUserExist_eq_false_iff]
    by_contra hexist
    rw [addUser, if_pos (by simpa using hexist)] at hret
    simp at hret
  rw [addUser_all _ _ _ hfree] at hrows
  obtain ⟨huser', hinfo', hcheck', hgroup'⟩ := hrows.present
  rcases hpart with rfl | hpart
  · exact
      { user := key_of_select_append (r := ovpnRow name pwd email nick) hfree huser'
        userinfo := key_of_select_append (r := userinfoRow name) h.userinfo hinfo'
        radcheck := key_of_select_append (r := radcheckRow name pwd) h.radcheck hcheck'
        radusergroup := key_of_select_append (r := groupRow name) h.radusergroup hgroup' }
  · exact
      { user := key_of_select_append (r := ovpnRow name pwd email nick) hfree huser'
        userinfo := key_of_select_added (r := userinfoRow name) h.userinfo hpart.userinfo rfl
          hinfo'
        radcheck := key_of_select_added (r := radcheckRow name pwd) h.radcheck hpart.radcheck
          rfl hcheck'
        radusergroup := key_of_select_added (r := groupRow name) h.radusergroup
          hpart.radusergroup rfl hgroup' }

/-- Where the rows of a failed registration are not taken back, it is not atomic. -/
theorem takenBack_of_atomic {pwd email nick : Text} (h : Absent env db name)
    (hkept : NameKept env name) (hatomic : Atomic env ok name pwd email nick db) :
    TakenBack env.dbDebug ok := by
  by_cases hall : ok = .all
  · exact .inl hall
  by_cases huser : ok.user = true
  swap
  · exact .inr (.inl (by simpa using huser))
  refine .inr (.inr ?_)
  obtain ⟨db', hrow, hpart, hret, hdb⟩ := addUser_of_radius_failed pwd email nick
    h.user huser (not_radius_of_ne_all hall huser)
  obtain ⟨-, hnone, hagain⟩ := hatomic
  rw [hret] at hnone hagain
  rw [hdb] at hnone hagain
  cases hdebug : env.dbDebug with
  | true =>
    -- the row of `user` is still there
    rw [if_pos hdebug] at hagain
    obtain ⟨hzero, -⟩ := hagain (by simp [failed, hdebug]) pwd email nick
    rw [addUser, if_pos] at hzero
    · simp at hzero
    · rw [isUserExist_iff, hrow]
      exact ⟨_, List.mem_append_right _ (List.mem_singleton_self _), hkept.user⟩
  | false =>
    refine ⟨?_, rfl⟩
    by_contra hinfo
    -- the row of `userinfo` is still there
    have habsent := (hnone (by simp [failed, hdebug])).userinfo
    rw [if_neg (by simp [hdebug]), (delOpenvpnUser_part hpart).userinfo,
      if_pos (by simpa using hinfo), select_added (r := userinfoRow name) h.userinfo
        hkept.userinfo] at habsent
    cases habsent

/-- For a name without rows a registration is atomic exactly if the columns keep the name, and
the rows of a failed one are taken back. -/
theorem atomic_iff (env : SqlEnv κ) (ok : Inserts) (name pwd email nick : Text) (db : UserDbs)
    (h : Absent env db name) :
    Atomic env ok name pwd email nick db ↔ NameKept env name ∧ TakenBack env.dbDebug ok := by
  refine ⟨fun hatomic => ?_, fun ⟨hkept, hok⟩ => atomic_of_takenBack _ _ _ h hkept hok⟩
  have hkept : NameKept env name := by
    by_cases hall : ok = .all
    · -- a row in every table is a row that was inserted
      subst hall
      rw [Atomic, addUser_all _ _ _ h.user] at hatomic
      obtain ⟨huser, hinfo, hcheck, hgroup⟩ := hatomic.1 rfl
      exact
        { user := key_of_select_append (r := ovpnRow name pwd email nick) h.user huser
          userinfo := key_of_select_append (r := userinfoRow name) h.userinfo hinfo
          radcheck := key_of_select_append (r := radcheckRow name pwd) h.radcheck hcheck
          radusergroup := key_of_select_append (r := groupRow name) h.radusergroup hgroup }
    · refine nameKept_of_repeatable pwd email nick h hall (hatomic.2.2 ?_)
      exact ret_ne_zero_of_ne_all _ _ _ h.user hall
  exact ⟨hkept, takenBack_of_atomic h hkept hatomic⟩

end

/-! ## A registration that fails half way -/

/-- Collations that tell letters of one case from those of the other no more than trailing blanks
from none. -/
def caseless (dbDebug : Bool) : SqlEnv Text where
  ovpnKey name := (name.rdropWhile (· = ' ')).map Char.toLower
  radiusKey name := (name.rdropWhile (· = ' ')).map Char.toLower
  dbDebug := dbDebug

theorem absent_empty {env : SqlEnv κ} {name : Text} : Absent env .empty name := ⟨rfl, rfl, rfl, rfl⟩

/-- The statement on `userinfo` fails, and the row of `user` is taken back. -/
theorem atomic_userinfo_failed :
    Atomic (caseless false) ⟨true, false, true, true⟩ ['a', 'n', 'n'] ['p'] ['e'] ['n'] .empty :=
  (atomic_iff (caseless false) ⟨true, false, true, true⟩ ['a', 'n', 'n'] ['p'] ['e'] ['n'] .empty
    absent_empty).mpr ⟨⟨by decide, by decide, by decide, by decide⟩, .inr (.inr ⟨rfl, rfl⟩)⟩

/-- The statement on `radcheck` fails: the row of `userinfo` stays, and where the script ends
there, that of `user` as well. -/
theorem not_atomic_radcheck_failed :
    (¬∀ ok name pwd email nick db, Absent (caseless false) db name →
      Atomic (caseless false) ok name pwd email nick db) ∧
    ¬∀ ok name pwd email nick db, Absent (caseless true) db name →
      Atomic (caseless true) ok name pwd email nick db := by
  constructor
  · intro h
    obtain ⟨-, hnone, -⟩ := h ⟨true, true, false, true⟩ ['a'] ['p'] ['e'] ['n'] .empty absent_empty
    exact absurd (hnone (by decide)).userinfo (by decide)
  · intro h
    obtain ⟨-, -, hagain⟩ := h ⟨true, true, false, true⟩ ['a'] ['p'] ['e'] ['n'] .empty absent_empty
    exact absurd (hagain (by decide) ['q'] ['e'] ['n']).1 (by decide)

end Gendo.UserMdl
