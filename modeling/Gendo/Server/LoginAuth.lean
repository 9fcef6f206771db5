import Gendo.Library.SqlText
import Gendo.Server.UserMsg

/-!
# What a login proves

`gas_db_user_auth` prints name and password into a query text, and believes the count that MySQL
answers. Only the name is checked before. MySQL is a parameter, `Mysql`: of its behaviour this
module uses where it ends a string literal, how it compares a column with a literal, and what it
answers to texts that read as the two fixed queries of a login.

A login authenticates (`Authenticates`) if `ret = 0` is sent only for a row with this name and
this password, and the query of a sane name reads as the fixed query. `authenticates_iff` says
which logins do: those whose name is rejected, and those whose password is plain between quotes,
as far as the comparison of the columns tells different strings apart.
-/

namespace Gendo

open ByteMemory SqlText

/-! ## The fixed queries -/

/-- The authentication as it is meant to be read, with its two literals. -/
def authTokens (name pwd : List UInt8) : List Token :=
  authHead.map .char ++ .str name :: (authMiddle.map .char ++ [.str pwd])

/-- The user information as it is meant to be read. -/
def infoTokens (name : List UInt8) : List Token := infoHead.map .char ++ [.str name]

theorem ascii_quote : ascii "'" = [quote] := by decide

theorem quote_notMem_authHead : quote ∉ authHead := by decide +kernel

theorem quote_notMem_authMiddle : quote ∉ authMiddle := by decide +kernel

theorem quote_notMem_infoHead : quote ∉ infoHead := by
  simp only [infoHead, List.mem_append, not_or]
  exact ⟨by decide +kernel, by decide +kernel, by decide +kernel, by decide +kernel⟩

/-- A sane name is a value without quotes and backslashes. -/
theorem notMem_of_sane {name : CString} (h : libNameSanity name = 0) :
    quote ∉ name.1 ∧ backslash ∉ name.1 := by
  have hall := (libNameSanity_eq_zero_iff.mp h).2.2
  exact ⟨fun hmem => absurd (hall _ hmem) (by decide), fun hmem => absurd (hall _ hmem) (by decide)⟩

/-- For a sane name, the authentication is read as it is meant exactly when the password is
plain. -/
theorem lex_authSql_iff {escapes : Bool} {name : CString} (h : libNameSanity name = 0)
    (pwd : CString) :
    lex escapes .outside (authSql name pwd) = some (authTokens name.1 pwd.1) ↔
      Plain escapes pwd.1 := by
  obtain ⟨hquote, hslash⟩ := notMem_of_sane h
  obtain ⟨b, rest, hmiddle, hb⟩ : ∃ b rest, authMiddle = b :: rest ∧ b ≠ quote :=
    ⟨_, _, rfl, by decide⟩
  -- the text is read up to the password whatever the password is
  have hlex : lex escapes .outside (authSql name pwd) =
      (lex escapes (.quoted []) (pwd.1 ++ [quote])).map fun ts =>
        authHead.map .char ++ .str name.1 :: (authMiddle.map .char ++ ts) := by
    rw [authSql, ascii_quote, lex_outside_append quote_notMem_authHead, List.singleton_append,
      List.singleton_append, hmiddle, List.cons_append, lex_literal hquote hslash hb,
      ← List.cons_append, ← hmiddle, lex_outside_append quote_notMem_authMiddle,
      List.singleton_append, lex, if_pos rfl, Option.map_map, Option.map_map]
    rfl
  have hinj : Function.Injective fun ts : List Token =>
      authHead.map .char ++ .str name.1 :: (authMiddle.map .char ++ ts) := fun ts ts' heq => by
    simpa using heq
  have htokens : some (authTokens name.1 pwd.1) = (some [.str pwd.1]).map fun ts =>
      authHead.map .char ++ .str name.1 :: (authMiddle.map .char ++ ts) := rfl
  rw [hlex, htokens, (Option.map_injective hinj).eq_iff]
  exact lex_quoted_iff pwd.1 []

/-- For a sane name, the user information is read as it is meant. -/
theorem lex_infoSql {escapes : Bool} {name : CString} (h : libNameSanity name = 0) :
    lex escapes .outside (infoSql name) = some (infoTokens name.1) := by
  obtain ⟨hquote, hslash⟩ := notMem_of_sane h
  rw [infoSql, ascii_quote, lex_outside_append quote_notMem_infoHead, List.singleton_append, lex,
    if_pos rfl, lex_quoted_append hquote hslash, lex, if_pos rfl, lex]
  rfl

/-! ## MySQL -/

/-- A row whose column is a string that MySQL takes to be the same as the literal. -/
def Row.same (sameText : List UInt8 → List UInt8 → Bool) (row : Row) (col : ℕ)
    (lit : List UInt8) : Bool :=
  (row col).any fun s => sameText s.1 lit

/-- The row that answers a count. -/
def countRow (n : ℕ) : Row := fun _ => some (CString.ofBytes (ascii (toString n)))

/-- What a login relies on of MySQL. A table is given by the columns of the user information, the
username in column 1 and the password in column 2. -/
structure Mysql where
  /-- Backslash escapes in string literals. -/
  escapes : Bool
  /-- A column equals a literal: the same text, under the collation of the column. -/
  sameText : List UInt8 → List UInt8 → Bool
  /-- The answer to a text, over a table. -/
  answer : List Row → List UInt8 → QueryOutcome
  answer_auth : ∀ table sql name pwd, lex escapes .outside sql = some (authTokens name pwd) →
    answer table sql = .rows [countRow (table.filter fun row =>
      row.same sameText 1 name && row.same sameText 2 pwd).length]
  answer_info : ∀ table sql name, lex escapes .outside sql = some (infoTokens name) →
    answer table sql = .rows (table.filter fun row => row.same sameText 1 name)

/-- The rows that a request gets are those MySQL answers over the table; any query may fail. -/
def DbEnv.Serves (db : DbEnv) (mysql : Mysql) (table : List Row) : Prop :=
  ∀ sql rs, db.answer sql = .rows rs → mysql.answer table sql = .rows rs

/-- The login authenticates: `ret = 0` is sent only if the table has a row with this username and
this password, and the query for a sane name is read as the fixed query with the two strings. -/
def Authenticates (mysql : Mysql) (pmsg : UserMsg) : Prop :=
  (∀ table db, DbEnv.Serves db mysql table → ∀ sent,
    (gasUserLogin db pmsg).outcome = .finished (some sent) →
    leNat (sent.frame.payload.take 4) = 0 →
    ∃ row ∈ table, row 1 = some pmsg.name ∧ row 2 = some pmsg.pwd) ∧
  (libNameSanity pmsg.name = 0 → lex mysql.escapes .outside (authSql pmsg.name pmsg.pwd) =
    some (authTokens pmsg.name.1 pmsg.pwd.1))

variable {mysql : Mysql} {pmsg : UserMsg}

/-- Strings that MySQL takes to be the name and the password are the name and the password. -/
def TellsApart (mysql : Mysql) (name pwd : CString) : Prop :=
  ∀ u p : CString, mysql.sameText u.1 name.1 → mysql.sameText p.1 pwd.1 → u = name ∧ p = pwd

/-- A login with `ret = 0` was authenticated, with a sane name. -/
theorem authed_of_ret_zero {db : DbEnv} {sent : Sent}
    (hout : (gasUserLogin db pmsg).outcome = .finished (some sent))
    (hret : leNat (sent.frame.payload.take 4) = 0) :
    libNameSanity pmsg.name = 0 ∧ Authed db pmsg.name pmsg.pwd := by
  rw [gasUserLogin] at hout
  dsimp only at hout
  split at hout
  · cases hout
  · next ret ps hres =>
    rw [loginOut_eq, Outcome.finished.injEq, Option.some.injEq] at hout
    rw [← hout] at hret
    dsimp only at hret
    rw [leNat_take_ackBytes] at hret
    rcases loginChecks_result hres with ⟨hne, -⟩ | ⟨-, hsane, hauth, -⟩
    · exact absurd (UInt32.toNat_inj.mp hret) hne
    · exact ⟨hsane, hauth⟩

/-- If the authentication is read as it is meant, the table has a row that MySQL takes to be the
user's. -/
theorem exists_row_of_authed {table : List Row} {db : DbEnv} (hserves : db.Serves mysql table)
    {name pwd : CString} (hlex : lex mysql.escapes .outside (authSql name pwd) =
      some (authTokens name.1 pwd.1)) (hauth : Authed db name pwd) :
    ∃ row ∈ table, row.same mysql.sameText 1 name.1 ∧ row.same mysql.sameText 2 pwd.1 := by
  obtain ⟨-, row, rest, count, hanswer, hcount, hone⟩ := hauth
  have hrows := hserves _ _ hanswer
  rw [mysql.answer_auth table _ _ _ hlex, QueryOutcome.rows.injEq, List.cons.injEq] at hrows
  by_contra hnone
  have hempty : (table.filter fun row =>
      row.same mysql.sameText 1 name.1 && row.same mysql.sameText 2 pwd.1) = [] := by
    rw [List.filter_eq_nil_iff]
    intro row hrow hsame
    exact hnone ⟨row, hrow, by simpa using hsame⟩
  rw [hempty] at hrows
  -- the count of no rows is `0`
  rw [← hrows.1] at hcount
  obtain rfl := Option.some.inj hcount
  exact absurd hone (by decide)

/-- The database of a user with this name and password. -/
def oneUserDb (mysql : Mysql) (row : Row) : DbEnv where
  authHandle := true
  updateHandle := true
  pool := ⟨1, [.idle]⟩
  answer := mysql.answer [row]

/-- The row of a user with this name and password, whose other columns are `0`. -/
def userRow (u p : CString) : Row := fun col =>
  if col = 1 then some u else if col = 2 then some p else some (CString.ofBytes (ascii "0"))

/-- A user whom both queries answer is logged in. -/
theorem login_of_answers {row : Row} (hall : ∀ col, (row col).isSome)
    (hsane : libNameSanity pmsg.name = 0)
    (hcount : mysql.answer [row] (authSql pmsg.name pmsg.pwd) = .rows [countRow 1])
    (hinfo : mysql.answer [row] (infoSql pmsg.name) = .rows [row]) :
    ∃ sent, (gasUserLogin (oneUserDb mysql row) pmsg).outcome = .finished (some sent) ∧
      leNat (sent.frame.payload.take 4) = 0 := by
  have hauth : Authed (oneUserDb mysql row) pmsg.name pmsg.pwd :=
    ⟨rfl, countRow 1, [], CString.ofBytes (ascii (toString 1)), hcount, rfl, by decide⟩
  have hyes : ¬NoAnswer (oneUserDb mysql row) (infoSql pmsg.name) := by
    rintro (hhandle | hnores)
    · exact absurd hhandle (by simp [oneUserDb, dbGetHandle])
    · change mysql.answer [row] _ = _ at hnores
      rw [hinfo] at hnores
      cases hnores
  obtain ⟨ps, hps⟩ := rowWrites_of_isSome hall userFields ACK_USER_OFF
  have hstored : StoredUser (oneUserDb mysql row) pmsg.name ACK_USER_OFF ps :=
    .inr ⟨hyes, row, [], hinfo, hps⟩
  refine ⟨⟨pmsg.peer, pmsg.msg, ACK_LEN, ackBytes pmsg.payload 0 ps, length_ackBytes _ _ _⟩, ?_,
    leNat_take_ackBytes _ 0 ps⟩
  simp [gasUserLogin, loginChecks_of_authed hsane hauth hstored, loginOut_eq]

theorem isSome_userRow (u p : CString) (col : ℕ) : (userRow u p col).isSome := by
  unfold userRow
  split_ifs <;> rfl

/-- A user that MySQL takes to be the one of a well-read login is logged in. -/
theorem login_oneUserDb (hsane : libNameSanity pmsg.name = 0)
    (hlex : lex mysql.escapes .outside (authSql pmsg.name pmsg.pwd) =
      some (authTokens pmsg.name.1 pmsg.pwd.1)) {u p : CString}
    (hu : mysql.sameText u.1 pmsg.name.1) (hp : mysql.sameText p.1 pmsg.pwd.1) :
    ∃ sent, (gasUserLogin (oneUserDb mysql (userRow u p)) pmsg).outcome = .finished (some sent) ∧
      leNat (sent.frame.payload.take 4) = 0 := by
  have hsame : (userRow u p).same mysql.sameText 1 pmsg.name.1 ∧
      (userRow u p).same mysql.sameText 2 pmsg.pwd.1 := by
    simp [Row.same, userRow, hu, hp]
  refine login_of_answers (isSome_userRow u p) hsane ?_ ?_
  · simp [mysql.answer_auth _ _ _ _ hlex, hsame]
  · simp [mysql.answer_info _ _ _ (lex_infoSql hsane), hsame]

/-- A login authenticates exactly when its name is rejected, or its password is plain between
quotes and MySQL tells name and password apart from all other strings. -/
theorem authenticates_iff (mysql : Mysql) (pmsg : UserMsg) :
    Authenticates mysql pmsg ↔ libNameSanity pmsg.name ≠ 0 ∨
      Plain mysql.escapes pmsg.pwd.1 ∧ TellsApart mysql pmsg.name pmsg.pwd := by
  constructor
  · rintro ⟨hlogin, hread⟩
    by_cases hsane : libNameSanity pmsg.name = 0
    swap
    · exact .inl hsane
    have hlex := hread hsane
    refine .inr ⟨(lex_authSql_iff hsane pmsg.pwd).mp hlex, fun u p hu hp => ?_⟩
    obtain ⟨sent, hout, hret⟩ := login_oneUserDb hsane hlex hu hp
    have hserves : DbEnv.Serves (oneUserDb mysql (userRow u p)) mysql [userRow u p] :=
      fun _ _ h => h
    obtain ⟨row, hrow, hname, hpwd⟩ := hlogin _ _ hserves sent hout hret
    rw [List.mem_singleton] at hrow
    subst hrow
    exact ⟨Option.some.inj hname, Option.some.inj hpwd⟩
  · intro h
    refine ⟨fun table db hserves sent hout hret => ?_, fun hsane => ?_⟩
    · obtain ⟨hsane, hauth⟩ := authed_of_ret_zero hout hret
      obtain ⟨hplain, htells⟩ := h.resolve_left (not_not.mpr hsane)
      obtain ⟨row, hrow, hname, hpwd⟩ := exists_row_of_authed hserves
        ((lex_authSql_iff hsane pmsg.pwd).mpr hplain) hauth
      rw [Row.same, Option.any_eq_true] at hname hpwd
      obtain ⟨u, hu, husame⟩ := hname
      obtain ⟨p, hp, hpsame⟩ := hpwd
      obtain ⟨rfl, rfl⟩ := htells u p husame hpsame
      exact ⟨row, hrow, hu, hp⟩
    · exact (lex_authSql_iff hsane pmsg.pwd).mpr (h.resolve_left (not_not.mpr hsane)).1

/-! ## A password that is a condition -/

/-- The text before each literal, with the literal. -/
def clauses (text : List UInt8) : List Token → List (List UInt8 × List UInt8)
  | [] => []
  | .char b :: ts => clauses (text ++ [b]) ts
  | .str v :: ts => (text, v) :: clauses [] ts

/-- The rest of a condition on username and password, in which `and` binds more than `or`; `acc`
is the conjunction so far. -/
def holds (row : Row) (acc : Bool) : List (List UInt8 × List UInt8) → Bool
  | [] => acc
  | (text, v) :: rest =>
    if text = authMiddle then holds row (acc && row.same (· == ·) 2 v) rest
    else if text = ascii " or username=" then acc || holds row (row.same (· == ·) 1 v) rest
    else false

/-- A MySQL that reads the conditions of the two queries, and compares strings byte by byte. -/
def evalSql (table : List Row) (sql : List UInt8) : QueryOutcome :=
  match (lex true .outside sql).map (clauses []) with
  | some ((text, v) :: rest) =>
    let rows := table.filter fun row => holds row (row.same (· == ·) 1 v) rest
    if text = authHead then .rows [countRow rows.length]
    else if text = infoHead then .rows rows
    else .queryError
  | _ => .queryError

theorem clauses_map_char (text cs : List UInt8) (ts : List Token) :
    clauses text (cs.map .char ++ ts) = clauses (text ++ cs) ts := by
  induction cs generalizing text with
  | nil => simp
  | cons c cs ih => rw [List.map_cons, List.cons_append, clauses, ih, List.append_assoc]; rfl

/-- This MySQL answers the two fixed queries as documented. -/
def byteMysql : Mysql where
  escapes := true
  sameText := (· == ·)
  answer := evalSql
  answer_auth := by
    intro table sql name pwd hlex
    have hclauses : clauses [] (authTokens name pwd) = [(authHead, name), (authMiddle, pwd)] := by
      rw [authTokens, clauses_map_char, clauses, clauses_map_char]
      rfl
    simp [evalSql, hlex, hclauses, holds]
  answer_info := by
    intro table sql name hlex
    have hclauses : clauses [] (infoTokens name) = [(infoHead, name)] := by
      rw [infoTokens, clauses_map_char]
      rfl
    have hne : infoHead ≠ authHead := by decide +kernel
    simp [evalSql, hlex, hclauses, holds, hne]

/-- A login as `alice`, with a password that closes its literal. -/
def conditionLogin : UserMsg :=
  ⟨⟨7, by decide⟩, MSG_GAS_USER_LOGIN, 96, overlay (ascii "alice" ++ List.replicate 27 0 ++
    ascii "' or username='alice") fun _ => 0⟩

/-- `alice`, whose password is another one. -/
def aliceRow : Row := userRow (CString.ofBytes (ascii "alice")) (CString.ofBytes (ascii "secret"))

/-- Not every login authenticates: the condition logs in as `alice`. -/
theorem not_authenticates_conditionLogin :
    ¬∀ (mysql : Mysql) (pmsg : UserMsg), Authenticates mysql pmsg := by
  intro hall
  have hname : conditionLogin.name = CString.ofBytes (ascii "alice") := by decide +kernel
  have hpwd : conditionLogin.pwd = CString.ofBytes (ascii "' or username='alice") := by
    decide +kernel
  have hsane : libNameSanity conditionLogin.name = 0 := by decide +kernel
  have hcount : byteMysql.answer [aliceRow] (authSql conditionLogin.name conditionLogin.pwd) =
      .rows [countRow 1] := by
    rw [hname, hpwd]
    rfl
  have hinfo : byteMysql.answer [aliceRow] (infoSql conditionLogin.name) = .rows [aliceRow] := by
    rw [byteMysql.answer_info _ _ _ (lex_infoSql hsane), hname]
    rfl
  obtain ⟨sent, hout, hret⟩ := login_of_answers (isSome_userRow _ _) hsane hcount hinfo
  obtain ⟨row, hrow, -, hsecret⟩ := (hall byteMysql conditionLogin).1 [aliceRow] _
    (fun _ _ h => h) sent hout hret
  rw [List.mem_singleton] at hrow
  rw [hrow, hpwd] at hsecret
  exact absurd hsecret (by decide)

end Gendo
