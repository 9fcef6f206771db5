import Gendo.Library.ByteMemory
import Gendo.Server.LibTypes

/-!
# Users and servers in the database

The functions of `gas-user.c` and what they use of `lib-db.c`: the SQL texts they build, and how
the rows of an answer are stored into a `user_t` or a `server_list_t`. The database itself is
`DbEnv`: which handles can be had, and how each text is answered. A function returns the queries
it made next to its result, which is `none` where the process dies: an `assert` on a missing row,
or a NULL column given to `atoi` or `strcpy`.

The structures are laid out as on x86-64. A row is stored by patches (`userWrites`,
`serverWrites`), so that the bytes a function leaves alone can be read off the patches.
-/

namespace Gendo

open ByteMemory

/-- The bytes of a string literal. -/
def ascii (s : String) : List UInt8 := s.toList.map fun c => UInt8.ofNat c.toNat

/-- `MYSQL_ROW`: a column is a C string, or NULL. -/
abbrev Row := ℕ → Option CString

/-! ## Strings and numbers -/

/-- `isalnum` in the C locale. -/
def isalnum (b : UInt8) : Bool := (48 ≤ b && b ≤ 57) || (65 ≤ b && b ≤ 90) || (97 ≤ b && b ≤ 122)

/-- `lib_name_sanity`. -/
def libNameSanity (name : CString) : ℤ :=
  if name.1.length ≤ 0 ∨ name.1.length ≥ 32 then -1
  else if name.1.all isalnum then 0 else -1

theorem libNameSanity_eq_zero_iff {name : CString} :
    libNameSanity name = 0 ↔
      name.1 ≠ [] ∧ name.1.length < 32 ∧ ∀ b ∈ name.1, isalnum b = true := by
  simp only [libNameSanity, Nat.le_zero, List.length_eq_zero_iff]
  split
  · next h => rcases h with h | h <;> simp [h]
  · next h =>
    rw [not_or] at h
    split
    · next hall => simpa [h.1, Nat.lt_of_not_le h.2] using hall
    · next hall => simpa [h.1, Nat.lt_of_not_le h.2] using hall

/-- The digits at the front of a string, as a number. -/
def leadingDigits (acc : ℕ) : List UInt8 → ℕ
  | [] => acc
  | b :: bs => if 48 ≤ b ∧ b ≤ 57 then leadingDigits (acc * 10 + (b.toNat - 48)) bs else acc

/-- `strtol` in base ten: white space, a sign, digits, and saturation at 64 bits. -/
def strtol (s : CString) : ℤ :=
  match s.1.dropWhile fun b => b = 32 ∨ (9 ≤ b ∧ b ≤ 13) with
  | 45 :: bs => max (-2 ^ 63) (-(leadingDigits 0 bs : ℤ))
  | 43 :: bs => min (2 ^ 63 - 1) (leadingDigits 0 bs)
  | bs => min (2 ^ 63 - 1) (leadingDigits 0 bs)

/-- `atoi`. -/
def atoi (s : CString) : Int32 := Int32.ofInt (strtol s)

/-- `atoll`. -/
def atoll (s : CString) : Int64 := Int64.ofInt (strtol s)

/-! ## Rows in memory -/

/-- How a column is stored into its field. -/
inductive ColumnKind
  /-- `atoi` into an `int`. -/
  | int
  /-- `atoll` into an `Int64`. -/
  | int64
  /-- `snprintf` with `%s` into an array of this size. -/
  | bounded (size : ℕ)
  /-- `strcpy`. -/
  | unbounded
  deriving DecidableEq, Repr

/-- The offset of a field, the column it is taken from, and how. -/
structure Column where
  off : ℕ
  col : ℕ
  kind : ColumnKind
  deriving DecidableEq, Repr

/-- What is written to the field for this row. -/
def Column.store (base : ℕ) (row : Row) (c : Column) : Option Patch :=
  match c.kind with
  | .int => (row c.col).map fun s => ⟨base + c.off, leBytes 4 (atoi s).toUInt32.toNat⟩
  | .int64 => (row c.col).map fun s => ⟨base + c.off, leBytes 8 (atoll s).toUInt64.toNat⟩
  | .bounded size =>
    -- glibc prints NULL as a text of its own
    let text := (row c.col).elim (ascii "(null)") Subtype.val
    some ⟨base + c.off, text.take (size - 1) ++ [0]⟩
  | .unbounded => (row c.col).map fun s => ⟨base + c.off, s.1 ++ [0]⟩

/-- `sizeof(user_t)`. -/
def USER_LEN : ℕ := 544

/-- The fields of `user_t` in the order in which `gas_db_user_info` fills them. -/
def userFields : List Column :=
  [⟨0, 0, .int⟩,            -- id
    ⟨4, 1, .bounded 32⟩,    -- name
    ⟨36, 2, .bounded 32⟩,   -- pwd
    ⟨68, 3, .int⟩,          -- active
    ⟨72, 4, .unbounded⟩,    -- reg_time
    ⟨104, 5, .bounded 32⟩,  -- nick
    ⟨136, 6, .unbounded⟩,   -- email
    ⟨168, 7, .bounded 128⟩, -- note
    ⟨296, 8, .int⟩,         -- quota_cycle
    ⟨304, 9, .int64⟩,       -- quota_bytes
    ⟨312, 10, .int64⟩,      -- quota_used
    ⟨320, 11, .bounded 128⟩, -- quota_name
    ⟨448, 12, .unbounded⟩,  -- quota_expire
    ⟨480, 13, .int64⟩,      -- history_bytes
    ⟨488, 14, .int⟩,        -- enable
    ⟨492, 15, .int⟩,        -- level
    ⟨496, 16, .unbounded⟩,  -- quota_start
    ⟨528, 17, .int⟩,        -- hobby
    ⟨532, 18, .int⟩,        -- login_cnt
    ⟨536, 19, .int⟩]        -- type

/-- `sizeof(server_t)`. -/
def SERVER_LEN : ℕ := 300

/-- The fields of `server_t` in the order in which `gas_db_server_info` fills them. -/
def serverFields : List Column :=
  [⟨0, 0, .int⟩,            -- id
    ⟨4, 1, .unbounded⟩,     -- ip
    ⟨36, 2, .bounded 32⟩,   -- name
    ⟨68, 3, .bounded 64⟩,   -- desc
    ⟨132, 4, .int⟩,         -- protocol
    ⟨136, 5, .int⟩,         -- latency
    ⟨140, 6, .int⟩,         -- cur_user
    ⟨144, 7, .int⟩,         -- max_user
    ⟨148, 8, .int⟩,         -- state
    ⟨152, 9, .unbounded⟩,   -- ssl_port
    ⟨280, 10, .int⟩,        -- type
    ⟨284, 11, .bounded 16⟩] -- location

/-- The writes of one row to the structure at `base`, or `none` for a NULL that kills. -/
def rowWrites (fields : List Column) (base : ℕ) (row : Row) : Option (List Patch) :=
  fields.mapM (Column.store base row)

/-- A row without NULL is stored. -/
theorem rowWrites_of_isSome {row : Row} (h : ∀ col, (row col).isSome) (fields : List Column)
    (base : ℕ) : ∃ ps, rowWrites fields base row = some ps := by
  induction fields with
  | nil => exact ⟨[], rfl⟩
  | cons c fields ih =>
    obtain ⟨ps, hps⟩ := ih
    obtain ⟨s, hs⟩ := Option.isSome_iff_exists.mp (h c.col)
    have hstore : ∃ p, Column.store base row c = some p := by
      unfold Column.store
      split <;> simp [hs]
    obtain ⟨p, hp⟩ := hstore
    rw [rowWrites] at hps ⊢
    exact ⟨p :: ps, by simp [List.mapM_cons, hp, hps]⟩

/-- What `gas_db_user_info` writes to the `user_t` at `base`. -/
def userWrites (base : ℕ) (row : Row) : Option (List Patch) := rowWrites userFields base row

/-- What `gas_db_server_info` writes from its `i`-th row on, `svr_cnt` last. -/
def serverWrites (i : ℕ) : List Row → Option (List Patch)
  | [] => some [⟨0, leBytes 4 i⟩]
  | row :: rows =>
    (rowWrites serverFields (4 + SERVER_LEN * i) row).bind fun ps =>
      (serverWrites (i + 1) rows).map (ps ++ ·)

/-! ## Queries -/

/-- State of a `db_handle_t` of the pool. -/
inductive DbHandleState
  | idle
  | busy
  deriving DecidableEq, Repr

/-- `db_pool_t`. -/
structure DbPool where
  count : ℤ
  handleList : List DbHandleState
  deriving DecidableEq, Repr

/-- `_db_get_handle`, once it is through its semaphore: the idle handle it takes. -/
def dbGetHandle (pool : DbPool) : Option ℕ :=
  if pool.count ≤ 0 then none else pool.handleList.findIdx? (· = .idle)

/-- How MySQL takes a query. -/
inductive QueryOutcome
  /-- `mysql_real_query` fails. -/
  | queryError
  /-- `mysql_store_result` returns NULL with an error number. -/
  | storeError
  /-- `mysql_store_result` returns NULL without one. -/
  | noResult
  /-- The rows that `mysql_fetch_row` returns. -/
  | rows (rs : List Row)

/-- The database as one request meets it: whether an instant handle connects for the
authentication and for the update, the pool, and the answers. -/
structure DbEnv where
  authHandle : Bool
  updateHandle : Bool
  pool : DbPool
  answer : List UInt8 → QueryOutcome

/-- The queries of a call in order, and its result unless the process dies in it. -/
structure DbCall (α : Type) where
  queries : List (List UInt8)
  result : Option α

/-- The text of `db_set_handle_utf8`, which `db_get_instant_handle` sends as well. -/
def setNames : List UInt8 := ascii "SET NAMES 'utf8'"

/-- The query of `gas_db_user_auth` up to the quote before the name. -/
def authHead : List UInt8 := ascii "select count(*) from user where username="

/-- The query of `gas_db_user_auth` between the quotes of name and password. -/
def authMiddle : List UInt8 := ascii " and password="

/-- The query of `gas_db_user_auth`. -/
def authSql (name pwd : CString) : List UInt8 :=
  authHead ++ (ascii "'" ++ (name.1 ++ (ascii "'" ++ (authMiddle ++ (ascii "'" ++
    (pwd.1 ++ ascii "'"))))))

theorem authSql_injective (name : CString) : Function.Injective (authSql name) := fun p q h => by
  simpa [authSql, CString.ext_iff] using h

/-- The query of `gas_db_user_info` up to the quote before the name, with the white space of its
continued lines. -/
def infoHead : List UInt8 :=
  ascii "select id,username, password,active,creation, name,email, " ++
    (ascii "\t\t       note, quota_cycle,quota_bytes,quota_used,quota_name," ++
    (ascii "\t\t       quota_expire,history_bytes,enabled,level, quota_start, hobby,login_cnt, " ++
    ascii "type from user where username="))

/-- The query of `gas_db_user_info`. -/
def infoSql (name : CString) : List UInt8 := infoHead ++ (ascii "'" ++ (name.1 ++ ascii "'"))

/-- The query of `gas_db_user_update_lastlogin`. -/
def lastloginSql (name : CString) : List UInt8 :=
  ascii "update user set login_cnt=login_cnt+1, login_latest=CURRENT_TIMESTAMP where username='" ++
    (name.1 ++ ascii "';")

/-- `TYPE_ALL`. -/
def TYPE_ALL : ℤ := 15

/-- The query of `gas_db_server_info`. -/
def serverSql (type : ℤ) : List UInt8 :=
  if type = TYPE_ALL then ascii "select * from server limit 0,30"
  else ascii ("select * from server where type=" ++ toString type ++ " limit 0,30")

/-- `gas_db_user_auth`. -/
def gasDbUserAuth (db : DbEnv) (name pwd : CString) : DbCall Bool :=
  if db.authHandle then
    ⟨[setNames, setNames, authSql name pwd],
      match db.answer (authSql name pwd) with
      | .queryError | .storeError | .noResult => some false
      | .rows [] => some false
      | .rows (row :: _) => (row 0).map fun count => atoi count == 1⟩
  else ⟨[], some false⟩

/-- `gas_db_user_info` into the `user_t` at `base`: its return value and its writes. -/
def gasDbUserInfo (db : DbEnv) (name : CString) (base : ℕ) : DbCall (ℤ × List Patch) :=
  match dbGetHandle db.pool with
  -- `return false`, which is `OK`
  | none => ⟨[], some (OK, [])⟩
  | some _ =>
    ⟨[setNames, infoSql name],
      match db.answer (infoSql name) with
      | .queryError | .storeError => some (ERROR, [])
      | .noResult => some (OK, [])
      -- `assert(row != NULL)`
      | .rows [] => none
      | .rows (row :: _) => (userWrites base row).map fun ps => (OK, ps)⟩

/-- The queries of `gas_db_user_update_lastlogin`. -/
def gasDbUserUpdateLastlogin (db : DbEnv) (name : CString) : List (List UInt8) :=
  if db.updateHandle then [setNames, setNames, lastloginSql name] else []

/-- `gas_db_server_info` into the `server_list_t` at the start of the memory. -/
def gasDbServerInfo (db : DbEnv) (type : ℤ) : DbCall (ℤ × List Patch) :=
  match dbGetHandle db.pool with
  -- `return false`, which is `OK`
  | none => ⟨[], some (OK, [])⟩
  | some _ =>
    ⟨[setNames, serverSql type],
      match db.answer (serverSql type) with
      | .queryError | .storeError => some (ERROR, [])
      | .noResult => some (OK, [])
      | .rows rs => (serverWrites 0 rs).map fun ps => (OK, ps)⟩

/-! ## What the calls answer -/

/-- The database authenticates the user: a connection is had, and the count it answers is one. -/
def Authed (db : DbEnv) (name pwd : CString) : Prop :=
  db.authHandle ∧ ∃ row rest count, db.answer (authSql name pwd) = .rows (row :: rest) ∧
    row 0 = some count ∧ atoi count = 1

/-- No pool handle is to be had, or the query comes back without a result set. -/
def NoAnswer (db : DbEnv) (sql : List UInt8) : Prop :=
  dbGetHandle db.pool = none ∨ db.answer sql = .noResult

theorem gasDbUserAuth_eq_true_iff {db : DbEnv} {name pwd : CString} :
    (gasDbUserAuth db name pwd).result = some true ↔ Authed db name pwd := by
  rw [gasDbUserAuth, Authed]
  cases db.authHandle with
  | false => simp
  | true =>
    cases hanswer : db.answer (authSql name pwd) with
    | queryError | storeError | noResult => simp
    | rows rs =>
      cases rs with
      | nil => simp
      | cons row rest => simp

/-- The writes of a successful `gas_db_user_info` to the `user_t` at `base`: none when there was
no answer, or those of the row it was answered. -/
def StoredUser (db : DbEnv) (name : CString) (base : ℕ) (ps : List Patch) : Prop :=
  NoAnswer db (infoSql name) ∧ ps = [] ∨
  ¬NoAnswer db (infoSql name) ∧ ∃ row rest, db.answer (infoSql name) = .rows (row :: rest) ∧
    userWrites base row = some ps

/-- The writes of a successful `gas_db_server_info`. -/
def StoredServers (db : DbEnv) (type : ℤ) (ps : List Patch) : Prop :=
  NoAnswer db (serverSql type) ∧ ps = [] ∨
  ¬NoAnswer db (serverSql type) ∧ ∃ rs, db.answer (serverSql type) = .rows rs ∧
    serverWrites 0 rs = some ps

theorem gasDbUserInfo_ok_iff {db : DbEnv} {name : CString} {base : ℕ} {ps : List Patch} :
    (gasDbUserInfo db name base).result = some (OK, ps) ↔ StoredUser db name base ps := by
  rw [gasDbUserInfo, StoredUser, NoAnswer]
  cases dbGetHandle db.pool with
  | none => simp [eq_comm]
  | some _ =>
    cases db.answer (infoSql name) with
    | queryError | storeError => simp [OK, ERROR]
    | noResult => simp [eq_comm]
    | rows rs =>
      cases rs with
      | nil => simp
      | cons row rest => simp

theorem gasDbServerInfo_ok_iff {db : DbEnv} {type : ℤ} {ps : List Patch} :
    (gasDbServerInfo db type).result = some (OK, ps) ↔ StoredServers db type ps := by
  rw [gasDbServerInfo, StoredServers, NoAnswer]
  cases dbGetHandle db.pool with
  | none => simp [eq_comm]
  | some _ =>
    cases db.answer (serverSql type) with
    | queryError | storeError => simp [OK, ERROR]
    | noResult => simp [eq_comm]
    | rows rs => simp

/-- A failed `gas_db_user_info` has written nothing. -/
theorem gasDbUserInfo_error {db : DbEnv} {name : CString} {base : ℕ} {ret : ℤ} {ps : List Patch}
    (h : (gasDbUserInfo db name base).result = some (ret, ps)) (hret : ret ≠ OK) : ps = [] := by
  rw [gasDbUserInfo] at h
  split at h
  · simp_all
  · dsimp only at h
    split at h <;> simp_all [eq_comm]

/-- A failed `gas_db_server_info` has written nothing. -/
theorem gasDbServerInfo_error {db : DbEnv} {type ret : ℤ} {ps : List Patch}
    (h : (gasDbServerInfo db type).result = some (ret, ps)) (hret : ret ≠ OK) : ps = [] := by
  rw [gasDbServerInfo] at h
  split at h
  · simp_all
  · dsimp only at h
    split at h <;> simp_all [eq_comm]

end Gendo
