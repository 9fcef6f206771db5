import Gendo.Server.WireLayout
import Gendo.Web.Register

/-!
# Rows in the arrays of the structures

Between the form and the arrays of `user_t` there are three sets of limits: the rules of the form,
the widths of the columns, and the sizes of the arrays. `strcpy` minds none of them.

`recordsFit_iff` says which registrations and which servers lead to a row that is copied inside
its arrays, and from which name and password come out as they are in the row.
-/

namespace Gendo

open ByteMemory CLayout TextColumn

/-! ## Servers -/

/-- What the columns of `server` are given, in the order of `openvpn.sql`. -/
structure ServerColumns where
  id : ℕ
  ip : Option (List Char)
  name : Option (List Char)
  info : Option (List Char)
  protocol : ℤ
  latency : ℤ
  curUser : ℕ
  maxUser : ℕ
  state : ℤ
  sslPort : List Char

/-! The character columns of `server`. -/

def SERVER_IP : TextColumn.Column := ⟨.varchar, 32⟩
def SERVER_NAME : TextColumn.Column := ⟨.varchar, 32⟩
def SERVER_INFO : TextColumn.Column := ⟨.varchar, 32⟩
def SERVER_SSL_PORT : TextColumn.Column := ⟨.varchar, 128⟩

/-- A row of `server`. The columns that `openvpn.sql` does not have are given by `others`. -/
def serverRow (s : ServerColumns) (others : Row) : Row
  | 0 => some (.ofBytes (ascii (toString s.id)))
  | 1 => s.ip.map (fetch SERVER_IP)
  | 2 => s.name.map (fetch SERVER_NAME)
  | 3 => s.info.map (fetch SERVER_INFO)
  | 4 => some (.ofBytes (ascii (toString s.protocol)))
  | 5 => some (.ofBytes (ascii (toString s.latency)))
  | 6 => some (.ofBytes (ascii (toString s.curUser)))
  | 7 => some (.ofBytes (ascii (toString s.maxUser)))
  | 8 => some (.ofBytes (ascii (toString s.state)))
  | 9 => some (fetch SERVER_SSL_PORT s.sslPort)
  | n => others n

/-! ## Copies -/

/-- Whatever is copied to a field stays inside it. -/
def CopiesFit (fields : List Column) (t : CType) (row : Row) : Prop :=
  ∀ cl ∈ fields.zip (t.leaves (Target.abi .x86_64) 0), ∀ p, cl.1.store 0 row = some p →
    p.bytes.length ≤ cl.2.size

/-- A string is copied as it is in the row. -/
def Survives (c : Column) (row : Row) : Prop :=
  ∀ s, row c.col = some s → ∃ p, c.store 0 row = some p ∧ p.bytes = s.1 ++ [0]

/-- The fields `name` and `pwd` of `user_t`. -/
def nameField : Column := ⟨4, 1, .bounded 32⟩
def pwdField : Column := ⟨36, 2, .bounded 32⟩

/-- A row of `user` is copied inside its arrays, and name and password as they are. -/
def UserRecordFits (row : Row) : Prop :=
  CopiesFit userFields userT row ∧ Survives nameField row ∧ Survives pwdField row

/-- A row of `server` is copied inside its arrays. -/
def ServerRecordFits (row : Row) : Prop := CopiesFit serverFields serverT row

/-- User name, password and email leave room for a NUL, in the arrays of 32 bytes, in what their
columns keep of the values that are stored. -/
def FormFits (env : RegisterEnv) (post : RegisterPost) : Prop :=
  (∀ s ∈ post.regUsername, (fetch USER_USERNAME (env.xssClean s)).1.length < 32) ∧
  (∀ s ∈ post.regPassword, (fetch USER_PASSWORD (env.xssClean s)).1.length < 32) ∧
  ∀ s ∈ post.email, (fetch USER_EMAIL (env.xssClean s)).1.length < 32

/-- Address and port leave room for a NUL, in the arrays of 32 and of 128 bytes. -/
def ServerFits (s : ServerColumns) : Prop :=
  (∀ ip ∈ s.ip, (fetch SERVER_IP ip).1.length < 32) ∧
  (fetch SERVER_SSL_PORT s.sslPort).1.length < 128

/-- The two fields are fields of `user_t`. -/
theorem mem_userFields : nameField ∈ userFields ∧ pwdField ∈ userFields := by decide

section Copies

variable {row : Row} {off col size : ℕ}

/-- An `int` is four bytes. -/
theorem fits_int : (∀ p, (⟨off, col, .int⟩ : Column).store 0 row = some p →
    p.bytes.length ≤ 4) ↔ True := by
  refine iff_true_intro fun p hp => ?_
  obtain ⟨s, -, rfl⟩ := Option.map_eq_some_iff.mp hp
  exact (length_leBytes _ _).le

/-- An `Int64` is eight bytes. -/
theorem fits_int64 : (∀ p, (⟨off, col, .int64⟩ : Column).store 0 row = some p →
    p.bytes.length ≤ 8) ↔ True := by
  refine iff_true_intro fun p hp => ?_
  obtain ⟨s, -, rfl⟩ := Option.map_eq_some_iff.mp hp
  exact (length_leBytes _ _).le

/-- `snprintf` minds the size that it is given. -/
theorem fits_bounded (size : ℕ) (hsize : 0 < size) :
    (∀ p, (⟨off, col, .bounded size⟩ : Column).store 0 row = some p →
      p.bytes.length ≤ size) ↔ True := by
  refine iff_true_intro fun p hp => ?_
  obtain rfl := Option.some.inj hp
  rw [List.length_append, List.length_take, List.length_singleton]
  omega

/-- `strcpy` stays in an array if the string is shorter than the array. -/
theorem fits_unbounded : (∀ p, (⟨off, col, .unbounded⟩ : Column).store 0 row = some p →
    p.bytes.length ≤ size) ↔ ∀ s ∈ row col, s.1.length < size := by
  constructor
  · intro h s hs
    have hstore : (⟨off, col, .unbounded⟩ : Column).store 0 row =
        some ⟨0 + off, s.1 ++ [0]⟩ := Option.map_eq_some_iff.mpr ⟨s, hs, rfl⟩
    have hle := h _ hstore
    rw [List.length_append, List.length_singleton] at hle
    exact hle
  · intro h p hp
    obtain ⟨s, hs, rfl⟩ := Option.map_eq_some_iff.mp hp
    rw [List.length_append, List.length_singleton]
    exact h s hs

/-- `snprintf` leaves a string as it is if that is shorter than the size. -/
theorem survives_bounded (hsize : 0 < size) :
    Survives ⟨off, col, .bounded size⟩ row ↔ ∀ s ∈ row col, s.1.length < size := by
  constructor
  · intro h s hs
    obtain ⟨p, hp, hbytes⟩ := h s hs
    have hlen := (fits_bounded size hsize).mpr trivial p hp
    rw [hbytes, List.length_append, List.length_singleton] at hlen
    exact hlen
  · intro h s hs
    refine ⟨_, rfl, ?_⟩
    have hrow : row col = some s := hs
    have htake : s.1.take (size - 1) = s.1 := by
      have hlt := h s hs
      exact List.take_of_length_le (by omega)
    show ((row col).elim (ascii "(null)") Subtype.val).take (size - 1) ++ [0] = s.1 ++ [0]
    rw [hrow]
    show s.1.take (size - 1) ++ [0] = s.1 ++ [0]
    rw [htake]

end Copies

/-- In a `user_t`, only the dates and the email can be too long. -/
theorem copiesFit_user_iff {row : Row} :
    CopiesFit userFields userT row ↔
      (∀ s ∈ row 4, s.1.length < 32) ∧ (∀ s ∈ row 6, s.1.length < 32) ∧
      (∀ s ∈ row 12, s.1.length < 32) ∧ ∀ s ∈ row 16, s.1.length < 32 := by
  have hleaves : userT.leaves (Target.abi .x86_64) 0 =
      [⟨0, 4⟩, ⟨4, 32⟩, ⟨36, 32⟩, ⟨68, 4⟩, ⟨72, 32⟩, ⟨104, 32⟩, ⟨136, 32⟩, ⟨168, 128⟩, ⟨296, 4⟩,
        ⟨304, 8⟩, ⟨312, 8⟩, ⟨320, 128⟩, ⟨448, 32⟩, ⟨480, 8⟩, ⟨488, 4⟩, ⟨492, 4⟩, ⟨496, 32⟩,
        ⟨528, 4⟩, ⟨532, 4⟩, ⟨536, 4⟩] := by decide
  rw [CopiesFit, hleaves, userFields]
  simp only [List.zip_cons_cons, List.zip_nil_left, List.forall_mem_cons, fits_int, fits_int64,
    fits_bounded 32 (by decide), fits_bounded 128 (by decide),
    fits_unbounded, true_and, List.not_mem_nil, false_imp_iff, implies_true, and_true]

/-- In a `server_t`, only the address and the port can be too long. -/
theorem copiesFit_server_iff {row : Row} :
    CopiesFit serverFields serverT row ↔
      (∀ s ∈ row 1, s.1.length < 32) ∧ ∀ s ∈ row 9, s.1.length < 128 := by
  have hleaves : serverT.leaves (Target.abi .x86_64) 0 =
      [⟨0, 4⟩, ⟨4, 32⟩, ⟨36, 32⟩, ⟨68, 64⟩, ⟨132, 4⟩, ⟨136, 4⟩, ⟨140, 4⟩, ⟨144, 4⟩, ⟨148, 4⟩,
        ⟨152, 128⟩, ⟨280, 4⟩, ⟨284, 16⟩] := by decide
  rw [CopiesFit, hleaves, serverFields]
  simp only [List.zip_cons_cons, List.zip_nil_left, List.forall_mem_cons, fits_int,
    fits_bounded 32 (by decide), fits_bounded 64 (by decide),
    fits_bounded 16 (by decide), fits_unbounded, true_and, List.not_mem_nil,
    false_imp_iff, implies_true, and_true]

/-- The dates of a registration are short. -/
theorem length_date_lt (t : Timestamp) : (CString.ofBytes t.text).1.length < 32 := by
  have hle := length_ofBytes_le t.text
  rw [t.length_text] at hle
  omega

theorem userRecordFits_iff {env : RegisterEnv} {id : ℕ} {dates : RegisterDates}
    {others row : Row} {post : RegisterPost} (h : submit env id dates others post = some row) :
    UserRecordFits row ↔ FormFits env post := by
  obtain ⟨username, password, email, nickname, husername, hpassword, hemail, -, -, rfl⟩ :=
    submit_eq_some h
  rw [UserRecordFits, FormFits, copiesFit_user_iff, nameField, pwdField,
    survives_bounded (by decide), survives_bounded (by decide), husername, hpassword, hemail]
  simp only [openvpnUser, Option.mem_some_iff, forall_eq', length_date_lt, true_and, and_true]
  -- the email comes first in the one, and last in the other
  rw [and_comm, and_assoc]

theorem serverRecordFits_iff {s : ServerColumns} {others : Row} :
    ServerRecordFits (serverRow s others) ↔ ServerFits s := by
  rw [ServerRecordFits, ServerFits, copiesFit_server_iff]
  simp only [serverRow, Option.mem_some_iff, forall_eq', Option.mem_map, forall_exists_index,
    and_imp, forall_apply_eq_imp_iff₂]

/-- A registered user fits a `user_t` exactly if what the columns keep of user name, password and
email is at most 31 bytes each; a server fits a `server_t` exactly if that is so for its address,
and its port is at most 127 bytes. This is so whatever is in the columns that `openvpn.sql` does
not have. -/
theorem recordsFit_iff (others : Row) :
    (∀ (env : RegisterEnv) (id : ℕ) (dates : RegisterDates) (post : RegisterPost) (row : Row),
      submit env id dates others post = some row → (UserRecordFits row ↔ FormFits env post)) ∧
    ∀ s : ServerColumns, ServerRecordFits (serverRow s others) ↔ ServerFits s :=
  ⟨fun _ _ _ _ _ h => userRecordFits_iff h, fun _ => serverRecordFits_iff⟩

/-- A registration in an empty database, with nothing to clean in what is posted. -/
def plainEnv : RegisterEnv where
  mbStrlen := true
  xssClean := id
  isUserExist := fun _ => false
  strict := true
  radiusOk := true

/-- What a user `alice` posts. -/
def alicePost (email : String) : RegisterPost where
  regUsername := some "alice".toList
  regPassword := some "secret".toList
  regPassconf := some "secret".toList
  email := some email.toList
  nickname := some "Alice".toList

/-- The zero date. -/
def zeroDates : RegisterDates := ⟨⟨0, 0, 0, 0, 0, 0⟩, ⟨0, 0, 0, 0, 0, 0⟩⟩

/-- The row that `alice` gets. -/
def aliceRegistered (email : String) : Row :=
  openvpnUser 1 zeroDates (fun _ => none) "alice".toList "secret".toList email.toList
    "Alice".toList

/-- Values that are short enough. -/
theorem recordsFit_shortEmail : UserRecordFits (aliceRegistered "alice@example.com") := by
  have hsubmit : submit plainEnv 1 zeroDates (fun _ => none) (alicePost "alice@example.com") =
      some (aliceRegistered "alice@example.com") := rfl
  refine ((recordsFit_iff fun _ => none).1 plainEnv 1 zeroDates _ _ hsubmit).mpr ?_
  refine ⟨fun s hs => ?_, fun s hs => ?_, fun s hs => ?_⟩
  all_goals
    obtain rfl := Option.some.inj hs
    decide +kernel

/-- Not every user who can register fits a `user_t`: an email of 39 bytes does not. -/
theorem not_recordsFit_longEmail :
    ¬∀ (env : RegisterEnv) (id : ℕ) (dates : RegisterDates) (others row : Row)
      (post : RegisterPost), submit env id dates others post = some row →
        UserRecordFits row := by
  intro h
  have hsubmit : submit plainEnv 1 zeroDates (fun _ => none)
      (alicePost "alice.liddell.of.wonderland@example.com") =
      some (aliceRegistered "alice.liddell.of.wonderland@example.com") := rfl
  have hfits := (userRecordFits_iff hsubmit).mp (h _ _ _ _ _ _ hsubmit)
  have hemail := hfits.2.2 _ rfl
  exact absurd hemail (by decide +kernel)

end Gendo
