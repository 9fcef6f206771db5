import Gendo.Server.UserMsg

/-!
# Old contents of message items

A message item is recycled without being cleared, and a frame may be shorter than the structure
that its handler reads and writes. Two servers whose items differ in their old contents alone
should do the same for the same frame: `NoLeak`. `noLeak_iff` says for which frames and answers
they do. A login leaks if its frame ends within the eight bytes before `user`, if the name or the
password that is used ends in old contents, or if the stored row leaves a byte of the user
neither written nor received; a server list leaks if the stored rows leave such a byte.
-/

namespace Gendo

open ByteMemory

variable {db : DbEnv} {peer : PeerFd} {frame : MsgFrame}

/-- What is done for a frame does not depend on what its item held before. -/
def NoLeak (db : DbEnv) (peer : PeerFd) (frame : MsgFrame) : Prop :=
  ∀ stale stale', rasUserMsgHandle db (.ofFrame peer frame stale) =
    rasUserMsgHandle db (.ofFrame peer frame stale')

/-- Every byte from `off` to `len` is received, or written by one of the patches. -/
def Filled (received : List UInt8) (ps : List Patch) (off len : ℕ) : Prop :=
  ∀ i, off ≤ i → i < len → i < received.length ∨ Covered ps i

/-- The received bytes of the name, and of the password. -/
def nameBytes (received : List UInt8) : List UInt8 := (received.drop 0).take 31

/-- The received bytes of the password. -/
def pwdBytes (received : List UInt8) : List UInt8 := (received.drop 32).take 31

/-- The name is rejected whatever follows what was received of it: it holds a byte that is no
letter or digit, or it starts with NUL. -/
def NameRejected (received : List UInt8) : Prop :=
  (∃ b ∈ (CString.ofBytes (nameBytes received)).1, isalnum b = false) ∨ received.head? = some 0

/-- The logins that do not depend on old contents. -/
def LoginStaleFree (db : DbEnv) (received : List UInt8) : Prop :=
  ACK_USER_OFF ≤ received.length ∧ (NameRejected received ∨
    CString.Settled (nameBytes received) 31 ∧ (db.authHandle →
      CString.Settled (pwdBytes received) 31 ∧
      (Authed db (CString.ofBytes (nameBytes received)) (CString.ofBytes (pwdBytes received)) →
        ∀ ps, StoredUser db (CString.ofBytes (nameBytes received)) ACK_USER_OFF ps →
          Filled received ps 4 ACK_LEN.toNat)))

/-- The server lists that do not depend on old contents. -/
def ListStaleFree (db : DbEnv) (received : List UInt8) : Prop :=
  ∀ ps, StoredServers db TYPE_ALL ps → Filled received ps 0 SERVER_LIST_LEN.toNat

/-- The frames that do not depend on old contents. Those that no handler takes are among them. -/
def StaleFree (db : DbEnv) (frame : MsgFrame) : Prop :=
  frame.len ≤ MID_MSG_LEN →
    (frame.msg = MSG_GAS_USER_LOGIN → LoginStaleFree db frame.payload) ∧
    (frame.msg = MSG_GAS_SERVER_LIST → ListStaleFree db frame.payload)

/-! ## Replies -/

/-- A login reply is the same for all old contents exactly when its bytes are filled: up to the
user when it is cleared, and to the end otherwise. -/
theorem loginOut_eq_iff (ret : UInt32) (ps : List Patch) :
    (∀ stale stale', loginOut (.ofFrame peer frame stale) ret ps =
      loginOut (.ofFrame peer frame stale') ret ps) ↔
    Filled frame.payload ps 4 (if ret = 0 then ACK_LEN.toNat else ACK_USER_OFF) := by
  have hbytes : ∀ stale stale', loginOut (.ofFrame peer frame stale) ret ps =
      loginOut (.ofFrame peer frame stale') ret ps ↔
      ackBytes (overlay frame.payload stale) ret ps =
        ackBytes (overlay frame.payload stale') ret ps := fun stale stale' => by
    simp [loginOut_eq, UserMsg.ofFrame]
  simp only [hbytes, ackBytes, List.append_cancel_left_eq]
  by_cases hzero : ret = 0
  · -- the whole reply comes from memory: the padding, and the user next to it
    have hread : ∀ m, read m 4 4 ++ read m ACK_USER_OFF USER_LEN = read m 4 (4 + USER_LEN) :=
      fun m => (read_add m 4 4 USER_LEN).symm
    simp only [hzero, ne_eq, not_true_eq_false, if_false, if_true, hread]
    exact read_applyAll_overlay_iff ps frame.payload 4 (4 + USER_LEN)
  · -- only the padding does, as the user is cleared
    simp only [hzero, ne_eq, not_false_eq_true, if_true, if_false, List.append_cancel_right_eq]
    exact read_applyAll_overlay_iff ps frame.payload 4 4

/-- A server list reply likewise; a cleared one is always the same. -/
theorem serverListOut_eq_iff (ret : UInt32) (ps : List Patch) :
    (∀ stale stale', serverListOut (.ofFrame peer frame stale) ret ps =
      serverListOut (.ofFrame peer frame stale') ret ps) ↔
    (ret = 0 → Filled frame.payload ps 0 SERVER_LIST_LEN.toNat) := by
  have hbytes : ∀ stale stale', serverListOut (.ofFrame peer frame stale) ret ps =
      serverListOut (.ofFrame peer frame stale') ret ps ↔
      listBytes (overlay frame.payload stale) ret ps =
        listBytes (overlay frame.payload stale') ret ps := fun stale stale' => by
    simp [serverListOut_eq, UserMsg.ofFrame]
  simp only [hbytes, listBytes]
  by_cases hzero : ret = 0
  · simp only [hzero, ne_eq, not_true_eq_false, if_false, forall_const]
    simpa [Filled] using read_applyAll_overlay_iff ps frame.payload 0 SERVER_LIST_LEN.toNat
  · simp [hzero]

/-! ## Names and passwords -/

/-- A settled name is that of the received bytes. -/
theorem name_of_settled (h : CString.Settled (nameBytes frame.payload) 31) (stale : Mem) :
    (UserMsg.ofFrame peer frame stale).name = CString.ofBytes (nameBytes frame.payload) :=
  CString.read_overlay_of_settled h stale

/-- A settled password is that of the received bytes. -/
theorem pwd_of_settled (h : CString.Settled (pwdBytes frame.payload) 31) (stale : Mem) :
    (UserMsg.ofFrame peer frame stale).pwd = CString.ofBytes (pwdBytes frame.payload) :=
  CString.read_overlay_of_settled h stale

/-- A rejected name is not sane, whatever the item held. -/
theorem libNameSanity_of_rejected (h : NameRejected frame.payload) (stale : Mem) :
    libNameSanity (UserMsg.ofFrame peer frame stale).name ≠ 0 := by
  intro hsane
  obtain ⟨hne, -, hall⟩ := libNameSanity_eq_zero_iff.mp hsane
  have hname : (UserMsg.ofFrame peer frame stale).name =
      CString.ofBytes (nameBytes frame.payload ++ read stale (0 + (nameBytes frame.payload).length)
        (31 - (nameBytes frame.payload).length)) := by
    rw [UserMsg.name, CString.read]
    exact congrArg CString.ofBytes (read_overlay frame.payload stale 0 31)
  rcases h with ⟨b, hb, hbad⟩ | hnul
  · -- the bad byte is in the name, as the received bytes are its beginning
    have hmem : b ∈ (UserMsg.ofFrame peer frame stale).name.1 := by
      rw [hname]
      by_cases hzero : 0 ∈ nameBytes frame.payload
      · rwa [CString.ofBytes_append_of_mem hzero]
      · rw [CString.ofBytes_of_notMem hzero] at hb
        rw [CString.ofBytes_append_of_notMem hzero]
        exact List.mem_append_left _ hb
    simp [hall b hmem] at hbad
  · -- a name that starts with NUL is empty
    obtain ⟨rest, hrest⟩ := List.head?_eq_some_iff.mp hnul
    exact hne (by simp [hname, hrest, nameBytes, CString.ofBytes])

/-- A settled name that is not rejected is sane. -/
theorem libNameSanity_of_settled {received : List UInt8} (hrej : ¬NameRejected received)
    (h : CString.Settled (nameBytes received) 31) :
    libNameSanity (CString.ofBytes (nameBytes received)) = 0 := by
  rw [NameRejected, not_or, not_exists] at hrej
  refine libNameSanity_eq_zero_iff.mpr ⟨?_, ?_, fun b hb => ?_⟩
  · intro hempty
    -- a settled name has a byte, and its first byte is not NUL
    cases received with
    | nil => simp [CString.Settled, nameBytes] at h
    | cons b rest =>
      have hb : b ≠ 0 := fun hb => hrej.2 (by simp [hb])
      simp [CString.ofBytes, nameBytes, hb] at hempty
  · -- it is cut off after 31 bytes
    have hle : (CString.ofBytes (nameBytes received)).1.length ≤ (nameBytes received).length :=
      (List.takeWhile_sublist _).length_le
    have htake : (nameBytes received).length ≤ 31 := List.length_take_le _ _
    omega
  · simpa [hb] using hrej.1 b

/-- A name that is neither settled nor rejected is not sane if a byte follows that is no letter
or digit. -/
theorem libNameSanity_of_not_settled (h : ¬CString.Settled (nameBytes frame.payload) 31) {b : UInt8}
    (hb : b ≠ 0) (hbad : isalnum b = false) :
    libNameSanity (UserMsg.ofFrame peer frame fun _ => b).name ≠ 0 := by
  intro hsane
  have hname := CString.read_overlay_of_not_settled h b
  rw [if_neg hb] at hname
  -- the name goes on into the old contents, so it holds their byte
  have hlt : (nameBytes frame.payload).length < 31 :=
    lt_of_le_of_ne (List.length_take_le _ _) (not_or.mp h).2
  have hmem : b ∈ (UserMsg.ofFrame peer frame fun _ => b).name.1 := by
    have hpos : 31 - (nameBytes frame.payload).length ≠ 0 := by omega
    change b ∈ (CString.read (overlay frame.payload fun _ => b) 0 31).1
    rw [hname]
    exact List.mem_append_right _ (List.mem_replicate.mpr ⟨hpos, rfl⟩)
  simp [(libNameSanity_eq_zero_iff.mp hsane).2.2 b hmem] at hbad

/-- A name that is neither settled nor rejected is sane if NUL follows and something was
received. -/
theorem libNameSanity_of_zero (hrej : ¬NameRejected frame.payload)
    (h : ¬CString.Settled (nameBytes frame.payload) 31) (hne : frame.payload ≠ []) :
    libNameSanity (UserMsg.ofFrame peer frame fun _ => 0).name = 0 := by
  have hname : (UserMsg.ofFrame peer frame fun _ => 0).name.1 = nameBytes frame.payload := by
    have hread := CString.read_overlay_of_not_settled h 0
    rw [if_pos rfl, List.append_nil] at hread
    exact hread
  have hzero : 0 ∉ nameBytes frame.payload := (not_or.mp h).1
  rw [NameRejected, not_or, not_exists, CString.ofBytes_of_notMem hzero] at hrej
  refine libNameSanity_eq_zero_iff.mpr ⟨?_, ?_, fun b hb => ?_⟩
  · rw [hname]
    simpa [nameBytes] using hne
  · rw [hname]
    exact Nat.lt_succ_of_le (List.length_take_le _ _)
  · rw [hname] at hb
    simpa [hb] using hrej.1 b

/-! ## Logins -/

/-- If the checks do not depend on the old contents, the reply does not exactly when it is
filled. -/
theorem gasUserLogin_eq_iff {checks : DbCall (UInt32 × List Patch)}
    (hchecks : ∀ stale, loginChecks db (UserMsg.ofFrame peer frame stale).name
      (UserMsg.ofFrame peer frame stale).pwd = checks) :
    (∀ stale stale', gasUserLogin db (.ofFrame peer frame stale) =
      gasUserLogin db (.ofFrame peer frame stale')) ↔
    ∀ ret ps, checks.result = some (ret, ps) →
      Filled frame.payload ps 4 (if ret = 0 then ACK_LEN.toNat else ACK_USER_OFF) := by
  simp only [gasUserLogin, hchecks, Handled.mk.injEq, true_and]
  cases checks.result with
  | none => simp
  | some r =>
    obtain ⟨ret, ps⟩ := r
    simp only [loginOut_eq_iff, Option.some.injEq, Prod.mk.injEq, and_imp]
    exact ⟨fun h _ _ hret hps => hret ▸ hps ▸ h, fun h => h _ _ rfl rfl⟩

/-- Nothing is written over the padding of a refused login, so its bytes are received or stale. -/
theorem filled_nil_iff {received : List UInt8} {off len : ℕ} (h : off < len) :
    Filled received [] off len ↔ len ≤ received.length := by
  refine ⟨fun hfill => ?_, fun hle i _ hi => .inl (hi.trans_le hle)⟩
  -- no patch covers the last byte, so it was received
  have := (hfill (len - 1) (by omega) (by omega)).resolve_right (not_covered_nil _)
  omega

/-- The replies to two names that are not sane differ if the padding does. -/
theorem ack_user_off_le_of_insane {b b' : UInt8} (hbb : b ≠ b')
    (hsane : libNameSanity (UserMsg.ofFrame peer frame fun _ => b).name ≠ 0)
    (hsane' : libNameSanity (UserMsg.ofFrame peer frame fun _ => b').name ≠ 0)
    (h : gasUserLogin db (.ofFrame peer frame fun _ => b) =
      gasUserLogin db (.ofFrame peer frame fun _ => b')) :
    ACK_USER_OFF ≤ frame.payload.length := by
  rw [gasUserLogin, gasUserLogin, loginChecks_of_insane hsane, loginChecks_of_insane hsane',
    Handled.mk.injEq] at h
  have hbytes := ackBytes_of_loginOut_eq h.2
  rw [ackBytes, ackBytes, List.append_cancel_left_eq] at hbytes
  -- both replies have the same padding, and its last byte is `b` in one and `b'` in the other
  have hpad := (List.append_inj hbytes (by simp)).1
  by_contra hlt
  have hbyte : overlay frame.payload (fun _ => b) 7 = overlay frame.payload (fun _ => b') 7 :=
    read_eq_read_iff.mp hpad 3 (by decide)
  rw [ACK_USER_OFF] at hlt
  rw [overlay_of_ge (by omega), overlay_of_ge (by omega)] at hbyte
  exact hbb hbyte

/-- A name that is neither settled nor rejected makes the handler depend on old contents. -/
theorem leak_of_not_settled (hrej : ¬NameRejected frame.payload)
    (hname : ¬CString.Settled (nameBytes frame.payload) 31)
    (h : ∀ stale stale', gasUserLogin db (.ofFrame peer frame stale) =
      gasUserLogin db (.ofFrame peer frame stale')) : False := by
  have hbad : libNameSanity (UserMsg.ofFrame peer frame fun _ => 33).name ≠ 0 :=
    libNameSanity_of_not_settled hname (by decide) (by decide)
  have hbad' : libNameSanity (UserMsg.ofFrame peer frame fun _ => 34).name ≠ 0 :=
    libNameSanity_of_not_settled hname (by decide) (by decide)
  have hlen := ack_user_off_le_of_insane (by decide) hbad hbad' (h _ _)
  have hne : frame.payload ≠ [] := fun hnil => by simp [hnil, ACK_USER_OFF] at hlen
  -- the same frame is a sane login over zeros
  have hgood : libNameSanity (UserMsg.ofFrame peer frame fun _ => 0).name = 0 :=
    libNameSanity_of_zero hrej hname hne
  have heq := h (fun _ => 33) (fun _ => 0)
  rw [gasUserLogin, gasUserLogin, loginChecks_of_insane hbad] at heq
  -- with a handle, only the sane login sends a query; without one, the errors differ
  cases hhandle : db.authHandle with
  | true =>
    obtain ⟨rest, hrest⟩ := loginChecks_queries hgood hhandle
      (UserMsg.ofFrame peer frame fun _ => 0).pwd
    rw [Handled.mk.injEq, hrest] at heq
    exact absurd heq.1 (List.cons_ne_nil _ _).symm
  | false =>
    rw [loginChecks_of_no_handle hgood hhandle, Handled.mk.injEq] at heq
    have hret := congrArg (fun bs => leNat (bs.take 4)) (ackBytes_of_loginOut_eq heq.2)
    simp only [leNat_take_ackBytes] at hret
    exact absurd hret (by decide)

/-- A settled name and password settle the checks. -/
theorem loginChecks_of_settled (hname : CString.Settled (nameBytes frame.payload) 31)
    (hpwd : CString.Settled (pwdBytes frame.payload) 31) (stale : Mem) :
    loginChecks db (UserMsg.ofFrame peer frame stale).name
      (UserMsg.ofFrame peer frame stale).pwd =
    loginChecks db (CString.ofBytes (nameBytes frame.payload))
      (CString.ofBytes (pwdBytes frame.payload)) := by
  rw [name_of_settled hname, pwd_of_settled hpwd]

/-- A password that is not settled makes the query of the authentication depend on old
contents. -/
theorem leak_of_pwd_not_settled (hname : CString.Settled (nameBytes frame.payload) 31)
    (hsane : libNameSanity (CString.ofBytes (nameBytes frame.payload)) = 0)
    (hhandle : db.authHandle = true) (hpwd : ¬CString.Settled (pwdBytes frame.payload) 31)
    (h : ∀ stale stale', gasUserLogin db (.ofFrame peer frame stale) =
      gasUserLogin db (.ofFrame peer frame stale')) : False := by
  have hlt : (pwdBytes frame.payload).length < 31 :=
    lt_of_le_of_ne (List.length_take_le _ _) (not_or.mp hpwd).2
  have heq := h (fun _ => 0) (fun _ => 33)
  rw [gasUserLogin, gasUserLogin, Handled.mk.injEq, name_of_settled hname,
    name_of_settled hname] at heq
  obtain ⟨rest, hrest⟩ := loginChecks_queries hsane hhandle
    (UserMsg.ofFrame peer frame fun _ => 0).pwd
  obtain ⟨rest', hrest'⟩ := loginChecks_queries hsane hhandle
    (UserMsg.ofFrame peer frame fun _ => 33).pwd
  rw [hrest, hrest'] at heq
  simp only [List.cons.injEq, true_and] at heq
  -- equal queries have equal passwords, but these have different lengths
  have hsame := congrArg Subtype.val (authSql_injective _ heq.1.1)
  have hzero := CString.read_overlay_of_not_settled hpwd 0
  have hmark := CString.read_overlay_of_not_settled hpwd 33
  rw [if_pos rfl, List.append_nil] at hzero
  rw [if_neg (by decide)] at hmark
  have hlen := congrArg List.length (hzero.symm.trans (hsame.trans hmark))
  rw [List.length_append, List.length_replicate] at hlen
  change (pwdBytes frame.payload).length = (pwdBytes frame.payload).length +
    (31 - (pwdBytes frame.payload).length) at hlen
  omega

/-- A login that does not leak is one of those that do not depend on old contents. -/
theorem loginStaleFree_of_noLeak
    (h : ∀ stale stale', gasUserLogin db (.ofFrame peer frame stale) =
      gasUserLogin db (.ofFrame peer frame stale')) :
    LoginStaleFree db frame.payload := by
  by_cases hrej : NameRejected frame.payload
  · -- a rejected name is refused before any query
    have hchecks : ∀ stale, loginChecks db (UserMsg.ofFrame peer frame stale).name
        (UserMsg.ofFrame peer frame stale).pwd =
          ⟨[], some (ERR_GAS_USER_LOGIN_NAME_SANITY, [])⟩ :=
      fun stale => loginChecks_of_insane (libNameSanity_of_rejected hrej stale) _
    have hfill := (gasUserLogin_eq_iff hchecks).mp h _ _ rfl
    exact ⟨(filled_nil_iff (by decide)).mp hfill, .inl hrej⟩
  by_cases hname : CString.Settled (nameBytes frame.payload) 31
  swap
  · exact (leak_of_not_settled hrej hname h).elim
  have hsane := libNameSanity_of_settled hrej hname
  cases hhandle : db.authHandle with
  | false =>
    have hchecks : ∀ stale, loginChecks db (UserMsg.ofFrame peer frame stale).name
        (UserMsg.ofFrame peer frame stale).pwd = ⟨[], some (ERR_GAS_USER_LOGIN_AUTH_FAIL, [])⟩ :=
      fun stale => loginChecks_of_no_handle (by rw [name_of_settled hname, hsane]) hhandle _
    have hfill := (gasUserLogin_eq_iff hchecks).mp h _ _ rfl
    exact ⟨(filled_nil_iff (by decide)).mp hfill, .inr ⟨hname, by simp [hhandle]⟩⟩
  | true =>
    have hpwd : CString.Settled (pwdBytes frame.payload) 31 := by
      by_contra hpwd
      exact leak_of_pwd_not_settled hname hsane hhandle hpwd h
    -- a settled password was received, and it comes after the padding
    have hlen : ACK_USER_OFF ≤ frame.payload.length := by
      have hne : pwdBytes frame.payload ≠ [] := by
        rcases hpwd with hmem | hlen
        · exact List.ne_nil_of_mem hmem
        · exact List.ne_nil_of_length_eq_add_one hlen
      have hlt : 32 < frame.payload.length := by
        by_contra hle
        exact hne (by simp [pwdBytes, List.drop_eq_nil_of_le (Nat.not_lt.mp hle)])
      exact Nat.le_trans (by decide) hlt.le
    have hchecks := fun stale => @loginChecks_of_settled db peer frame hname hpwd stale
    refine ⟨hlen, .inr ⟨hname, fun _ => ⟨hpwd, fun hauth ps hps => ?_⟩⟩⟩
    exact (gasUserLogin_eq_iff hchecks).mp h 0 ps (loginChecks_of_authed hsane hauth hps)

/-- The logins that do not depend on old contents do not leak them. -/
theorem noLeak_of_loginStaleFree (h : LoginStaleFree db frame.payload) (stale stale' : Mem) :
    gasUserLogin db (.ofFrame peer frame stale) = gasUserLogin db (.ofFrame peer frame stale') := by
  obtain ⟨hlen, hcase⟩ := h
  -- a refused login writes nothing, and leaves only the padding
  have hrefused : ∀ ret : UInt32, ret ≠ 0 → Filled frame.payload [] 4
      (if ret = 0 then ACK_LEN.toNat else ACK_USER_OFF) := fun ret hret => by
    rw [if_neg hret]
    exact (filled_nil_iff (by decide)).mpr hlen
  have hconst : ∀ {ret : UInt32}, ret ≠ 0 → (∀ stale, loginChecks db
      (UserMsg.ofFrame peer frame stale).name (UserMsg.ofFrame peer frame stale).pwd =
        ⟨[], some (ret, [])⟩) →
      gasUserLogin db (.ofFrame peer frame stale) =
        gasUserLogin db (.ofFrame peer frame stale') := fun {ret} hret hchecks => by
    refine (gasUserLogin_eq_iff hchecks).mpr (fun ret' ps' heq => ?_) stale stale'
    simp only [Option.some.injEq, Prod.mk.injEq] at heq
    rw [← heq.1, ← heq.2]
    exact hrefused ret hret
  rcases hcase with hrej | ⟨hname, hrest⟩
  · exact hconst (by decide) fun stale =>
      loginChecks_of_insane (libNameSanity_of_rejected hrej stale) _
  by_cases hsane : libNameSanity (CString.ofBytes (nameBytes frame.payload)) = 0
  swap
  · exact hconst (by decide) fun stale =>
      loginChecks_of_insane (by rwa [name_of_settled hname]) _
  cases hhandle : db.authHandle with
  | false =>
    exact hconst (by decide) fun stale =>
      loginChecks_of_no_handle (by rwa [name_of_settled hname]) hhandle _
  | true =>
    obtain ⟨hpwd, hrow⟩ := hrest hhandle
    have hchecks := fun stale => @loginChecks_of_settled db peer frame hname hpwd stale
    refine (gasUserLogin_eq_iff hchecks).mpr (fun ret ps hres => ?_) stale stale'
    -- the checks refuse, or they store the user's row, which fills the reply
    rcases loginChecks_result hres with ⟨hret, rfl⟩ | ⟨rfl, -, hauth, hstored⟩
    · exact hrefused ret hret
    · exact hrow hauth ps hstored

/-- A login does not leak old contents exactly when it does not depend on them. -/
theorem loginNoLeak_iff :
    (∀ stale stale', gasUserLogin db (.ofFrame peer frame stale) =
      gasUserLogin db (.ofFrame peer frame stale')) ↔ LoginStaleFree db frame.payload :=
  ⟨loginStaleFree_of_noLeak, noLeak_of_loginStaleFree⟩

/-! ## Server lists -/

/-- A server list does not leak old contents exactly when what is stored fills it. -/
theorem listNoLeak_iff :
    (∀ stale stale', gasServerList db (.ofFrame peer frame stale) =
      gasServerList db (.ofFrame peer frame stale')) ↔ ListStaleFree db frame.payload := by
  simp only [gasServerList, Handled.mk.injEq, true_and]
  cases hres : (gasDbServerInfo db TYPE_ALL).result with
  | none =>
    refine iff_of_true (fun _ _ => rfl) fun ps hps => ?_
    rw [gasDbServerInfo_ok_iff.mpr hps] at hres
    cases hres
  | some r =>
    obtain ⟨ret, ps⟩ := r
    dsimp only
    rw [serverListOut_eq_iff]
    -- what is stored is what the call returns, and a list that failed is cleared
    by_cases hret : ret = OK
    · have hstored : ∀ ps', StoredServers db TYPE_ALL ps' ↔ ps = ps' := fun ps' => by
        rw [← gasDbServerInfo_ok_iff, hres, hret]
        simp
      simp [ListStaleFree, hstored, hret]
    · have hnone : ∀ ps', ¬StoredServers db TYPE_ALL ps' := fun ps' hps' => hret <| by
        rw [gasDbServerInfo_ok_iff.mpr hps', Option.some.injEq, Prod.mk.injEq] at hres
        exact hres.1.symm
      have hfail : ERR_GAS_SERVER_LIST_FAIL ≠ 0 := by decide
      simp [ListStaleFree, hnone, hret, hfail]

/-- A frame is handled without regard to the old contents of its item exactly when it does not
depend on them. -/
theorem noLeak_iff (db : DbEnv) (peer : PeerFd) (frame : MsgFrame) :
    NoLeak db peer frame ↔ StaleFree db frame := by
  rw [NoLeak, StaleFree]
  by_cases hlen : frame.len ≤ MID_MSG_LEN
  swap
  · have hother : ∀ stale, rasUserMsgHandle db (.ofFrame peer frame stale) =
        ⟨[], .finished none⟩ := fun stale => rasUserMsgHandle_other db fun h => absurd h hlen
    simp [hother, hlen]
  rw [forall_prop_of_true hlen]
  by_cases hlogin : frame.msg = MSG_GAS_USER_LOGIN
  · have hhandle : ∀ stale, rasUserMsgHandle db (.ofFrame peer frame stale) =
        gasUserLogin db (.ofFrame peer frame stale) := fun stale =>
      rasUserMsgHandle_login db hlogin hlen
    have hlist : frame.msg ≠ MSG_GAS_SERVER_LIST := by
      rw [hlogin]
      decide
    simp only [hhandle, loginNoLeak_iff]
    exact ⟨fun h => ⟨fun _ => h, fun h' => absurd h' hlist⟩, fun h => h.1 hlogin⟩
  by_cases hlist : frame.msg = MSG_GAS_SERVER_LIST
  · have hhandle : ∀ stale, rasUserMsgHandle db (.ofFrame peer frame stale) =
        gasServerList db (.ofFrame peer frame stale) := fun stale =>
      rasUserMsgHandle_serverList db hlist hlen
    simp only [hhandle, listNoLeak_iff]
    exact ⟨fun h => ⟨fun h' => absurd h' hlogin, fun _ => h⟩, fun h => h.2 hlist⟩
  · have hother : ∀ stale, rasUserMsgHandle db (.ofFrame peer frame stale) =
        ⟨[], .finished none⟩ := fun stale =>
      rasUserMsgHandle_other db fun _ => ⟨hlogin, hlist⟩
    simp [hother, hlogin, hlist]

/-! ## An empty list -/

/-- A database without servers. -/
def noServersDb : DbEnv where
  authHandle := true
  updateHandle := true
  pool := ⟨1, [.idle]⟩
  answer _ := .rows []

/-- Not every frame is free of leaks: the reply to a request for an empty list shows what its
item held before. -/
theorem not_noLeak_listRequest :
    ¬∀ (db : DbEnv) (peer : PeerFd) (frame : MsgFrame), NoLeak db peer frame := by
  intro hall
  have hlist : ∀ stale stale', gasServerList noServersDb
      (.ofFrame ⟨7, by norm_num⟩ listRequest stale) =
        gasServerList noServersDb (.ofFrame ⟨7, by norm_num⟩ listRequest stale') :=
    fun stale stale' => hall noServersDb ⟨7, by norm_num⟩ listRequest stale stale'
  have hstored : StoredServers noServersDb TYPE_ALL [⟨0, leBytes 4 0⟩] :=
    .inr ⟨by simp [NoAnswer, noServersDb, dbGetHandle], [], rfl, rfl⟩
  -- the byte 4 is neither received nor written: only the count of the servers is
  have hbyte := listNoLeak_iff.mp hlist _ hstored 4 (by decide) (by decide)
  simp [listRequest, Patch.Covers] at hbyte

end Gendo
