import Gendo.Client.ProxyAuth
import Gendo.Library.ByteMemory
import Gendo.Library.Shlwapi
import Gendo.Library.TextStream
import Mathlib.Data.List.Infix

/-!
# Handshakes with a proxy

`doHttp11Connect`, `doSock4Connect` and `doSock5Connect`: a request is built in `pbMessage` and
sent, and a reply of at most 200 bytes is received over it. How many bytes were received is not
looked at, so a test of a short reply reads what is left of the request.

`sound_iff` says for which replies a handshake only succeeds when the proxy granted the connection,
and tests nothing but what was received. The request of SOCKS 4 has no user id at all.
-/

namespace Gendo.Client

open ByteMemory TextStream

open Shlwapi (ascii)

/-- `PROXY_NAME_LEN` -/
def PROXY_NAME_LEN : ℕ := 128

/-- The size of `pbMessage`. -/
def MESSAGE_SIZE : ℕ := 2000

/-- `PROXY_PARAM`, without the address of the proxy. -/
structure ProxyParam where
  needPass : ℤ
  user : CString
  pass : CString
  user_lt : user.1.length < PROXY_NAME_LEN
  pass_lt : pass.1.length < PROXY_NAME_LEN

/-- The socket: whether `send` succeeds, and what `recv` delivers, by the number of the call. -/
structure ProxySocket where
  sends : ℕ → Bool
  recvs : ℕ → Option (List UInt8)
  recvs_le : ∀ k, ∀ bytes ∈ recvs k, bytes.length ≤ 200

/-- A test of `pbMessage`, with the bytes that were received last. -/
structure ProxyTest where
  bytes : List UInt8
  test : Mem → Bool

/-- What a handshake returns, with the requests, the replies and the tests that were made. -/
structure ProxyCall where
  ret : ℤ
  sent : List (List UInt8)
  received : List (List UInt8)
  tests : List ProxyTest

/-- The server behind the proxy, and `inet_addr`. -/
structure ProxyTarget where
  targetSvr : CString
  targetPort : ℤ
  inetAddr : CString → UInt32

/-- `send` of a request in the buffer, and `recv`: a return value when one of them fails, or what
was received and the buffer then. -/
def exchange (s : ProxySocket) (k : ℕ) (buf : Mem) : Except ℤ (List UInt8 × Mem) :=
  if s.sends k then
    match s.recvs k with
    | none => .error (-2)
    | some bytes => .ok (bytes, overlay bytes buf)
  else .error (-1)

/-- `htons(targetPort)`, as it is in memory. -/
def portBytes (targetPort : ℤ) : List UInt8 :=
  leBytes 2 ((targetPort % 65536).toNat % 256 * 256 + (targetPort % 65536).toNat / 256)

/-! ## HTTP -/

/-- The request of `doHttp11Connect`. -/
def httpRequest (proxy : ProxyParam) (t : ProxyTarget) : List UInt8 :=
  if proxy.needPass = 0 then
    ascii "CONNECT " ++ t.targetSvr.1 ++ ascii ":" ++ decimal t.targetPort ++
      ascii " HTTP/1.0\r\nUser-Agent: sslvpn\r\n\r\n"
  else
    let szAuthT := proxy.user.1 ++ ascii ":" ++ proxy.pass.1
    let szAuth := CString.ofBytes (RopProxy.to64frombits szAuthT)
    ascii "CONNECT " ++ t.targetSvr.1 ++ ascii ":" ++ decimal t.targetPort ++
      ascii " HTTP/1.0\r\nProxy-Authorization: Basic " ++ szAuth.1 ++ ascii "\r\n\r\n"

/-- `strstr(pbMessage, "200")`, which looks no further than the array. -/
def has200 (buf : Mem) : Bool := ascii "200" <:+: (CString.read buf 0 MESSAGE_SIZE).1

/-- `doHttp11Connect`; `none` where the request does not fit. -/
def doHttp11Connect (s : ProxySocket) (proxy : ProxyParam) (t : ProxyTarget) (stale : Mem) :
    Option ProxyCall :=
  let request := httpRequest proxy t
  if MESSAGE_SIZE ≤ request.length then none
  else
    match exchange s 0 (overlay (request ++ [0]) stale) with
    | .error ret => some ⟨ret, [request], [], []⟩
    | .ok (bytes, buf) =>
      some ⟨if has200 buf then 0 else -3, [request], [bytes], [⟨bytes, has200⟩]⟩

/-! ## SOCKS 4 -/

/-- The request of `doSock4Connect`. -/
def sock4Request (t : ProxyTarget) : List UInt8 :=
  [4, 1] ++ portBytes t.targetPort ++ leBytes 4 (t.inetAddr t.targetSvr).toNat

/-- The test of `doSock4Connect`. -/
def sock4Refused (buf : Mem) : Bool := buf 0 ≠ 0 || buf 1 ≠ 90

/-- `doSock4Connect` -/
def doSock4Connect (s : ProxySocket) (t : ProxyTarget) (stale : Mem) : Option ProxyCall :=
  let request := sock4Request t
  match exchange s 0 (overlay request stale) with
  | .error ret => some ⟨ret, [request], [], []⟩
  | .ok (bytes, buf) =>
    some ⟨if sock4Refused buf then -3 else 0, [request], [bytes], [⟨bytes, sock4Refused⟩]⟩

/-! ## SOCKS 5 -/

/-- The methods that `doSock5Connect` offers. -/
def sock5Methods : List UInt8 := [5, 2, 0, 2]

/-- The user and the password. -/
def sock5AuthRequest (proxy : ProxyParam) : List UInt8 :=
  [1, .ofNat proxy.user.1.length] ++ proxy.user.1 ++ [.ofNat proxy.pass.1.length] ++ proxy.pass.1

/-- The request for the connection: `INADDR_NONE` stands for a name. -/
def sock5Request (t : ProxyTarget) : List UInt8 :=
  let v := t.inetAddr t.targetSvr
  [5, 1, 0] ++
    (if v ≠ 0xFFFFFFFF then 1 :: leBytes 4 v.toNat
    else [3, .ofNat t.targetSvr.1.length] ++ t.targetSvr.1) ++ portBytes t.targetPort

/-- The tests of `doSock5Connect`. -/
def sock5Auth (buf : Mem) : Bool := buf 0 = 5 && buf 1 = 2

def sock5AuthFailed (buf : Mem) : Bool := buf 1 ≠ 0

def sock5Refused (buf : Mem) : Bool := buf 0 ≠ 5 || buf 1 ≠ 0

/-- `doSock5Connect` from the request for the connection on, with the `k`-th calls of `send` and
`recv`; `none` where the request does not fit. -/
def sock5Connect (s : ProxySocket) (k : ℕ) (t : ProxyTarget) (buf : Mem) (call : ProxyCall) :
    Option ProxyCall :=
  let request := sock5Request t
  if MESSAGE_SIZE < request.length then none
  else
    match exchange s k (overlay request buf) with
    | .error ret => some { call with ret := ret, sent := call.sent ++ [request] }
    | .ok (bytes, buf) =>
      some ⟨if sock5Refused buf then -3 else 0, call.sent ++ [request], call.received ++ [bytes],
        call.tests ++ [⟨bytes, sock5Refused⟩]⟩

/-- `doSock5Connect` -/
def doSock5Connect (s : ProxySocket) (proxy : ProxyParam) (t : ProxyTarget) (stale : Mem) :
    Option ProxyCall :=
  match exchange s 0 (overlay sock5Methods stale) with
  | .error ret => some ⟨ret, [sock5Methods], [], []⟩
  | .ok (method, buf) =>
    let call : ProxyCall := ⟨0, [sock5Methods], [method], [⟨method, sock5Auth⟩]⟩
    if sock5Auth buf then
      let request := sock5AuthRequest proxy
      match exchange s 1 (overlay (request ++ [0]) buf) with
      | .error ret => some { call with ret := ret, sent := call.sent ++ [request] }
      | .ok (bytes, buf) =>
        let call : ProxyCall := ⟨-3, call.sent ++ [request], call.received ++ [bytes],
          call.tests ++ [⟨bytes, sock5AuthFailed⟩]⟩
        if sock5AuthFailed buf then some call else sock5Connect s 2 t buf call
    else sock5Connect s 1 t buf call

/-! ## What a handshake is to do -/

/-- The protocols. -/
inductive ProxyKind
  | http11
  | sock4
  | sock5
  deriving DecidableEq, Repr

/-- The handshake of a protocol. -/
def ProxyKind.connect (kind : ProxyKind) (s : ProxySocket) (proxy : ProxyParam) (t : ProxyTarget)
    (stale : Mem) : Option ProxyCall :=
  match kind with
  | http11 => doHttp11Connect s proxy t stale
  | sock4 => doSock4Connect s t stale
  | sock5 => doSock5Connect s proxy t stale

/-- Bytes that begin with a status line of HTTP whose code is 200. -/
def StatusLine200 (bytes : List UInt8) : Prop :=
  ∃ major minor rest, bytes = ascii "HTTP/" ++ [major, 46, minor] ++ ascii " 200" ++ rest ∧
    isDigit major = true ∧ isDigit minor = true ∧ ∀ b ∈ rest.head?, isSpace b = true

/-- A reply of SOCKS that begins with these two bytes. -/
def Replies (version code : UInt8) (bytes : List UInt8) : Prop :=
  bytes[0]? = some version ∧ bytes[1]? = some code

/-- The replies grant the connection. -/
def Granted : ProxyKind → List (List UInt8) → Prop
  | .http11, received => ∃ bytes, received = [bytes] ∧ StatusLine200 bytes
  | .sock4, received => ∃ bytes, received = [bytes] ∧ Replies 0 90 bytes
  | .sock5, received =>
    (∃ method bytes, received = [method, bytes] ∧ Replies 5 0 method ∧ Replies 5 0 bytes) ∨
    ∃ method auth bytes, received = [method, auth, bytes] ∧ Replies 5 2 method ∧
      auth[1]? = some 0 ∧ Replies 5 0 bytes

/-- A complete request of SOCKS 4: the port, the address, and the user id with its NUL. -/
def CompleteSock4 (request : List UInt8) : Prop :=
  ∃ (port addr : List UInt8) (user : CString), port.length = 2 ∧ addr.length = 4 ∧
    request = [4, 1] ++ port ++ addr ++ user.1 ++ [0]

/-- The test does not depend on what is behind the bytes that were received. -/
def ProxyTest.OfReceived (t : ProxyTest) : Prop :=
  ∀ m m', t.test (overlay t.bytes m) = t.test (overlay t.bytes m')

/-- A call is sound. -/
structure SoundCall (kind : ProxyKind) (call : ProxyCall) : Prop where
  granted : call.ret = 0 → Granted kind call.received
  received : ∀ t ∈ call.tests, t.OfReceived
  complete : kind = .sock4 → ∀ request ∈ call.sent, CompleteSock4 request

/-- A handshake is sound, whatever was in the buffer before. -/
def Sound (kind : ProxyKind) (s : ProxySocket) (proxy : ProxyParam) (t : ProxyTarget) : Prop :=
  ∀ stale, ∃ call, kind.connect s proxy t stale = some call ∧ SoundCall kind call

/-- A reply that the tests of SOCKS 5 can be made of: they look at the second byte only if the first
one is 5. -/
def Readable (bytes : List UInt8) : Prop :=
  bytes ≠ [] ∧ (bytes[0]? = some 5 → 2 ≤ bytes.length)

/-- The reply to a request of HTTP is one to be read, and is a status line if it has `200`. -/
def GoodHttp (bytes : List UInt8) : Prop :=
  (0 ∈ bytes ∨ ascii "200" <:+: bytes) ∧
    (ascii "200" <:+: (CString.ofBytes bytes).1 → StatusLine200 bytes)

/-- The request for a connection fits, and the reply is one to be read and grants the connection
only where the method was right. -/
def GoodConnect (s : ProxySocket) (k : ℕ) (t : ProxyTarget) (method : Prop) : Prop :=
  (sock5Request t).length ≤ MESSAGE_SIZE ∧
    (s.sends k = true → ∀ bytes ∈ s.recvs k, Readable bytes ∧ (Replies 5 0 bytes → method))

/-- The inputs for which a handshake is sound. -/
def GoodProxy (kind : ProxyKind) (s : ProxySocket) (proxy : ProxyParam) (t : ProxyTarget) : Prop :=
  match kind with
  | .http11 => (httpRequest proxy t).length < MESSAGE_SIZE ∧
      (s.sends 0 = true → ∀ bytes ∈ s.recvs 0, GoodHttp bytes)
  | .sock4 => False
  | .sock5 => s.sends 0 = true → ∀ method ∈ s.recvs 0, Readable method ∧
      (Replies 5 2 method → s.sends 1 = true → ∀ auth ∈ s.recvs 1, 2 ≤ auth.length ∧
        (auth[1]? = some 0 → GoodConnect s 2 t True)) ∧
      (¬ Replies 5 2 method → GoodConnect s 1 t (Replies 5 0 method))

/-! ## The tests -/

section

variable {bytes bs cs : List UInt8} {m : Mem}

/-- What is behind the first of two parts is the second one. -/
theorem overlay_overlay_append (bs cs : List UInt8) (m : Mem) :
    overlay bs (overlay (bs ++ cs) m) = overlay (bs ++ cs) m := by
  funext i
  rcases Nat.lt_or_ge i bs.length with hlt | hge
  · have hlt' : i < (bs ++ cs).length := by
      rw [List.length_append]
      omega
    rw [overlay_of_lt hlt, overlay_of_lt hlt', List.getElem_append_left hlt]
  · rw [overlay_of_ge hge]

/-- The string in the buffer goes on behind what was received, if that has no NUL. -/
theorem read_overlay_message (h : bytes.length ≤ MESSAGE_SIZE) (m : Mem) :
    CString.read (overlay bytes m) 0 MESSAGE_SIZE =
      CString.ofBytes (bytes ++ ByteMemory.read m bytes.length (MESSAGE_SIZE - bytes.length)) := by
  rw [CString.read, read_overlay, List.drop_zero, List.take_of_length_le h, Nat.zero_add]

/-- Then the test for `200` is made of the string that was received. -/
theorem has200_overlay (h : bytes.length ≤ 200) (hread : 0 ∈ bytes ∨ ascii "200" <:+: bytes)
    (m : Mem) : has200 (overlay bytes m) = true ↔ ascii "200" <:+: (CString.ofBytes bytes).1 := by
  have hsize : bytes.length ≤ MESSAGE_SIZE := by
    rw [MESSAGE_SIZE]
    omega
  rw [has200, decide_eq_true_iff, read_overlay_message hsize]
  by_cases hnul : 0 ∈ bytes
  · rw [CString.ofBytes_append_of_mem hnul]
  · have hsub := hread.resolve_left hnul
    rw [CString.ofBytes_append_of_notMem hnul, CString.ofBytes_of_notMem hnul]
    exact iff_of_true (hsub.trans (List.prefix_append _ _).isInfix) hsub

/-- The test for `200` where zeros follow. -/
theorem has200_zeros (h : bytes.length < MESSAGE_SIZE) (hnul : 0 ∉ bytes) :
    has200 (overlay bytes fun _ => 0) = true ↔ ascii "200" <:+: bytes := by
  have htake : (bytes.drop 0).take MESSAGE_SIZE = bytes := by
    rw [List.drop_zero, List.take_of_length_le (Nat.le_of_lt h)]
  have hopen : ¬ CString.Settled ((bytes.drop 0).take MESSAGE_SIZE) MESSAGE_SIZE := by
    rw [htake, CString.Settled, not_or]
    exact ⟨hnul, Nat.ne_of_lt h⟩
  rw [has200, decide_eq_true_iff, CString.read_overlay_of_not_settled hopen, if_pos rfl, htake,
    List.append_nil]

/-- The test for `200` is one of what was received exactly if that has a NUL, or `200`. -/
theorem has200_ofReceived_iff (h : bytes.length ≤ 200) :
    ProxyTest.OfReceived ⟨bytes, has200⟩ ↔ 0 ∈ bytes ∨ ascii "200" <:+: bytes := by
  rw [ProxyTest.OfReceived]
  dsimp only
  constructor
  · intro hsame
    by_contra hnot
    rw [not_or] at hnot
    have hsize : bytes.length + 3 < MESSAGE_SIZE := Nat.lt_of_le_of_lt (Nat.add_le_add_right h 3)
      (by decide)
    have hmore : (bytes ++ ascii "200").length = bytes.length + 3 := List.length_append
    have hnul : 0 ∉ bytes ++ ascii "200" := by
      rw [List.mem_append, not_or]
      exact ⟨hnot.1, by decide⟩
    -- the bytes behind make the difference
    have hwith := (has200_zeros (hmore ▸ hsize) hnul).mpr (List.suffix_append _ _).isInfix
    have hbehind := hsame (overlay (bytes ++ ascii "200") fun _ => 0) fun _ => 0
    rw [overlay_overlay_append, hwith] at hbehind
    exact hnot.2 ((has200_zeros (by omega) hnot.1).mp hbehind.symm)
  · intro hread m m'
    rw [Bool.eq_iff_iff, has200_overlay h hread, has200_overlay h hread]

/-- A test of both first bytes for 5 and a code is one of what was received exactly if that is
readable. -/
theorem ofReceived_iff_readable (code : UInt8) :
    ProxyTest.OfReceived ⟨bytes, fun buf => buf 0 = 5 && buf 1 = code⟩ ↔ Readable bytes := by
  rcases bytes with _ | ⟨a, _ | ⟨b, rest⟩⟩
  · refine iff_of_false (fun h => ?_) fun h => h.1 rfl
    have hdiff := h (fun i => if i = 0 then 5 else code) fun _ => 0
    simp [overlay] at hdiff
  · by_cases ha : a = 5
    · subst ha
      refine iff_of_false (fun h => ?_) fun h => absurd (h.2 rfl) (by simp)
      have hdiff := h (fun _ => code) fun _ => code + 1
      simp [overlay] at hdiff
    · refine iff_of_true (fun m m' => ?_) ⟨by simp, by simp [ha]⟩
      simp [overlay, ha]
  · exact iff_of_true (fun m m' => rfl) ⟨by simp, by simp⟩

/-- What such a test says of a readable reply. -/
theorem firstTwo_of_readable (h : Readable bytes) (code : UInt8) (m : Mem) :
    (overlay bytes m 0 = 5 && overlay bytes m 1 = code : Bool) = true ↔ Replies 5 code bytes := by
  rcases bytes with _ | ⟨a, _ | ⟨b, rest⟩⟩
  · exact absurd rfl h.1
  · have ha : a ≠ 5 := fun ha => absurd (h.2 (congrArg some ha)) (by simp)
    simp [overlay, Replies, ha]
  · simp [overlay, Replies]

theorem sock5Auth_ofReceived_iff :
    ProxyTest.OfReceived ⟨bytes, sock5Auth⟩ ↔ Readable bytes :=
  ofReceived_iff_readable 2

theorem sock5Auth_of_readable (h : Readable bytes) (m : Mem) :
    sock5Auth (overlay bytes m) = true ↔ Replies 5 2 bytes :=
  firstTwo_of_readable h 2 m

theorem sock5Refused_eq (buf : Mem) : sock5Refused buf = !(buf 0 = 5 && buf 1 = 0) := by
  simp [sock5Refused]

theorem sock5Refused_ofReceived_iff :
    ProxyTest.OfReceived ⟨bytes, sock5Refused⟩ ↔ Readable bytes := by
  rw [← ofReceived_iff_readable 0]
  refine forall_congr' fun m => forall_congr' fun m' => ?_
  simp only [sock5Refused_eq, Bool.not_inj_iff]

theorem sock5Refused_of_readable (h : Readable bytes) (m : Mem) :
    sock5Refused (overlay bytes m) = true ↔ ¬ Replies 5 0 bytes := by
  rw [sock5Refused_eq, Bool.not_eq_true', ← Bool.not_eq_true, firstTwo_of_readable h]

/-- The test for the status of the user looks at the second byte. -/
theorem sock5AuthFailed_ofReceived_iff :
    ProxyTest.OfReceived ⟨bytes, sock5AuthFailed⟩ ↔ 2 ≤ bytes.length := by
  rcases bytes with _ | ⟨a, _ | ⟨b, rest⟩⟩
  · refine iff_of_false (fun h => ?_) (by simp)
    have hdiff := h (fun _ => 0) fun _ => 1
    simp [overlay, sock5AuthFailed] at hdiff
  · refine iff_of_false (fun h => ?_) (by simp)
    have hdiff := h (fun _ => 0) fun _ => 1
    simp [overlay, sock5AuthFailed] at hdiff
  · exact iff_of_true (fun m m' => rfl) (by simp)

theorem sock5AuthFailed_of_length (h : 2 ≤ bytes.length) (m : Mem) :
    sock5AuthFailed (overlay bytes m) = true ↔ bytes[1]? ≠ some 0 := by
  rcases bytes with _ | ⟨a, _ | ⟨b, rest⟩⟩
  · simp at h
  · simp at h
  · simp [overlay, sock5AuthFailed]

end

/-! ## The handshakes -/

section

variable {s : ProxySocket} {proxy : ProxyParam} {t : ProxyTarget} {k : ℕ} {buf : Mem}
  {call : ProxyCall} {method : Prop}

/-- A call that does not succeed, and has made no other test than these, is sound. -/
theorem SoundCall.of_ne_zero {kind : ProxyKind} (hkind : kind ≠ .sock4) (hret : call.ret ≠ 0)
    (htests : ∀ t ∈ call.tests, t.OfReceived) : SoundCall kind call :=
  ⟨fun h => absurd h hret, htests, fun h => absurd h hkind⟩

/-- `send` or `recv` fails, or a reply is delivered. -/
theorem exchange_cases (s : ProxySocket) (k : ℕ) (buf : Mem) :
    (∃ ret, exchange s k buf = .error ret ∧ ret ≠ 0 ∧ (s.sends k = true → s.recvs k = none)) ∨
      ∃ bytes, exchange s k buf = .ok (bytes, overlay bytes buf) ∧ s.sends k = true ∧
        s.recvs k = some bytes := by
  rw [exchange]
  by_cases hsend : s.sends k = true
  · rw [if_pos hsend]
    rcases hrecv : s.recvs k with _ | bytes
    · exact .inl ⟨-2, rfl, by decide, fun _ => rfl⟩
    · exact .inr ⟨bytes, rfl, hsend, rfl⟩
  · rw [if_neg hsend]
    exact .inl ⟨-1, rfl, by decide, fun h => absurd h hsend⟩

/-- What is asked of the reply that was delivered. -/
theorem forall_reply_iff {P : List UInt8 → Prop} {bytes : List UInt8} (hsend : s.sends k = true)
    (hrecv : s.recvs k = some bytes) :
    (s.sends k = true → ∀ bytes ∈ s.recvs k, P bytes) ↔ P bytes := by
  rw [hrecv]
  simp [hsend]

/-- Where none was delivered, nothing is. -/
theorem forall_reply_of_none {P : List UInt8 → Prop} (h : s.sends k = true → s.recvs k = none) :
    s.sends k = true → ∀ bytes ∈ s.recvs k, P bytes := by
  intro hsend bytes hbytes
  rw [h hsend] at hbytes
  cases hbytes

/-- The call of a handshake over HTTP with a reply. -/
theorem soundCall_http11_iff {bytes : List UInt8} (h : bytes.length ≤ 200) (buf : Mem)
    (sent : List (List UInt8)) :
    SoundCall .http11 ⟨if has200 (overlay bytes buf) then 0 else -3, sent, [bytes],
      [⟨bytes, has200⟩]⟩ ↔ GoodHttp bytes := by
  constructor
  · rintro ⟨hgranted, hreceived, -⟩
    have hread := (has200_ofReceived_iff h).mp (hreceived _ (List.mem_singleton_self _))
    refine ⟨hread, fun hsub => ?_⟩
    rw [(has200_overlay h hread buf).mpr hsub] at hgranted
    obtain ⟨reply, hreply, hstatus⟩ := hgranted rfl
    rwa [List.singleton_inj.mp hreply]
  · rintro ⟨hread, hstatus⟩
    refine ⟨fun hret => ⟨bytes, rfl, hstatus ?_⟩, ?_, fun hkind => by cases hkind⟩
    · rw [← has200_overlay h hread buf]
      by_contra hno
      dsimp only at hret
      rw [if_neg hno] at hret
      exact absurd hret (by decide)
    · rw [List.forall_mem_singleton, has200_ofReceived_iff h]
      exact hread

/-- The handshake over HTTP. -/
theorem sound_http11_iff : Sound .http11 s proxy t ↔ GoodProxy .http11 s proxy t := by
  rw [Sound, GoodProxy]
  simp only [ProxyKind.connect, doHttp11Connect]
  by_cases hfits : MESSAGE_SIZE ≤ (httpRequest proxy t).length
  · simp only [if_pos hfits, Nat.not_lt.mpr hfits]
    simp
  · simp only [if_neg hfits, Nat.lt_of_not_le hfits, true_and]
    constructor
    · intro h hsend bytes hbytes
      obtain ⟨call, hcall, hsound⟩ := h fun _ => 0
      rcases exchange_cases s 0 (overlay (httpRequest proxy t ++ [0]) fun _ => 0) with
        ⟨ret, -, -, hnone⟩ | ⟨reply, hok, -, hrecv⟩
      · rw [hnone hsend] at hbytes
        cases hbytes
      · rw [hrecv] at hbytes
        obtain rfl := Option.some.inj hbytes
        rw [hok] at hcall
        rw [← Option.some.inj hcall] at hsound
        exact (soundCall_http11_iff (s.recvs_le 0 _ hrecv) _ _).mp hsound
    · intro h stale
      rcases exchange_cases s 0 (overlay (httpRequest proxy t ++ [0]) stale) with
        ⟨ret, herror, hret, -⟩ | ⟨reply, hok, hsend, hrecv⟩
      · rw [herror]
        exact ⟨_, rfl, .of_ne_zero (by decide) hret (by simp)⟩
      · rw [hok]
        exact ⟨_, rfl, (soundCall_http11_iff (s.recvs_le 0 _ hrecv) _ _).mpr
          (h hsend reply hrecv)⟩

/-- A request of eight bytes is none of SOCKS 4. -/
theorem not_sound_sock4 : ¬ Sound .sock4 s proxy t := by
  intro h
  obtain ⟨call, hcall, hsound⟩ := h fun _ => 0
  have hsent : sock4Request t ∈ call.sent := by
    simp only [ProxyKind.connect, doSock4Connect] at hcall
    split at hcall <;> rw [← Option.some.inj hcall] <;> exact List.mem_singleton_self _
  obtain ⟨port, addr, user, hport, haddr, hrequest⟩ := hsound.complete rfl _ hsent
  have hlength := congrArg List.length hrequest
  simp only [sock4Request, portBytes, List.length_append, length_leBytes, List.length_cons,
    List.length_nil, hport, haddr] at hlength
  omega

/-- A call that ends with a reply to the request for the connection. -/
theorem soundCall_sock5_iff {bytes : List UInt8} (buf : Mem) (sent : List (List UInt8))
    (htests : ∀ t ∈ call.tests, t.OfReceived)
    (hmethod : ∀ bytes, Replies 5 0 bytes →
      (Granted .sock5 (call.received ++ [bytes]) ↔ method)) :
    SoundCall .sock5 ⟨if sock5Refused (overlay bytes buf) then -3 else 0, sent,
      call.received ++ [bytes], call.tests ++ [⟨bytes, sock5Refused⟩]⟩ ↔
      Readable bytes ∧ (Replies 5 0 bytes → method) := by
  constructor
  · rintro ⟨hgranted, hreceived, -⟩
    have hread := sock5Refused_ofReceived_iff.mp
      (hreceived _ (List.mem_append_right _ (List.mem_singleton_self _)))
    refine ⟨hread, fun hreply => (hmethod bytes hreply).mp (hgranted ?_)⟩
    have hrefused := mt (sock5Refused_of_readable hread buf).mp (not_not.mpr hreply)
    exact if_neg hrefused
  · rintro ⟨hread, hreply⟩
    refine ⟨fun hret => ?_, ?_, fun hkind => by cases hkind⟩
    · have hyes : Replies 5 0 bytes := by
        by_contra hno
        dsimp only at hret
        rw [if_pos ((sock5Refused_of_readable hread buf).mpr hno)] at hret
        exact absurd hret (by decide)
      exact (hmethod bytes hyes).mpr (hreply hyes)
    · refine List.forall_mem_append.mpr ⟨htests, List.forall_mem_singleton.mpr ?_⟩
      exact sock5Refused_ofReceived_iff.mpr hread

/-- The last part of a handshake over SOCKS 5, behind tests of what was received. -/
theorem sock5Connect_iff (method : Prop) (buf : Mem) (htests : ∀ t ∈ call.tests, t.OfReceived)
    (hmethod : ∀ bytes, Replies 5 0 bytes →
      (Granted .sock5 (call.received ++ [bytes]) ↔ method)) :
    (∃ call', sock5Connect s k t buf call = some call' ∧ SoundCall .sock5 call') ↔
      GoodConnect s k t method := by
  rw [GoodConnect, sock5Connect]
  by_cases hfits : MESSAGE_SIZE < (sock5Request t).length
  · rw [if_pos hfits]
    exact iff_of_false (by simp) fun h => absurd h.1 (Nat.not_le.mpr hfits)
  · rw [if_neg hfits, and_iff_right (Nat.le_of_not_lt hfits)]
    rcases exchange_cases s k (overlay (sock5Request t) buf) with
      ⟨ret, herror, hret, hnone⟩ | ⟨bytes, hok, hsend, hrecv⟩
    · rw [herror]
      exact iff_of_true ⟨_, rfl, .of_ne_zero (by decide) hret htests⟩ (forall_reply_of_none hnone)
    · rw [hok, forall_reply_iff hsend hrecv,
        ← soundCall_sock5_iff (overlay (sock5Request t) buf) (call.sent ++ [sock5Request t]) htests
          hmethod]
      simp only [Option.some.injEq, exists_eq_left']

/-- The tests that were made before stay. -/
theorem mem_tests_sock5Connect {call' : ProxyCall} {test : ProxyTest}
    (h : sock5Connect s k t buf call = some call') (hmem : test ∈ call.tests) :
    test ∈ call'.tests := by
  rw [sock5Connect] at h
  by_cases hfits : MESSAGE_SIZE < (sock5Request t).length
  · rw [if_pos hfits] at h
    cases h
  · rw [if_neg hfits] at h
    rcases exchange_cases s k (overlay (sock5Request t) buf) with
      ⟨ret, herror, -, -⟩ | ⟨bytes, hok, -, -⟩
    · rw [herror] at h
      rw [← Option.some.inj h]
      exact hmem
    · rw [hok] at h
      rw [← Option.some.inj h]
      exact List.mem_append_left _ hmem

/-- The reply to the user and the password, and what follows it. -/
theorem sock5Auth_iff {reply auth : List UInt8} (sent : List (List UInt8)) (buf : Mem)
    (hread : Readable reply) (hchosen : Replies 5 2 reply) :
    (∃ call, (if sock5AuthFailed (overlay auth buf) then
        some ⟨-3, sent, [reply, auth], [⟨reply, sock5Auth⟩, ⟨auth, sock5AuthFailed⟩]⟩
      else sock5Connect s 2 t (overlay auth buf)
        ⟨-3, sent, [reply, auth], [⟨reply, sock5Auth⟩, ⟨auth, sock5AuthFailed⟩]⟩) = some call ∧
      SoundCall .sock5 call) ↔
      2 ≤ auth.length ∧ (auth[1]? = some 0 → GoodConnect s 2 t True) := by
  by_cases hlen : 2 ≤ auth.length
  · have htests : ∀ t ∈ [⟨reply, sock5Auth⟩, ⟨auth, sock5AuthFailed⟩], ProxyTest.OfReceived t := by
      rw [List.forall_mem_cons, List.forall_mem_singleton]
      exact ⟨sock5Auth_ofReceived_iff.mpr hread, sock5AuthFailed_ofReceived_iff.mpr hlen⟩
    have hfailed := sock5AuthFailed_of_length hlen buf
    rw [and_iff_right hlen]
    by_cases haccepted : auth[1]? = some 0
    · rw [if_neg (mt hfailed.mp (not_not.mpr haccepted)), sock5Connect_iff True]
      · simp [haccepted]
      · exact htests
      · intro bytes hbytes
        exact iff_of_true (.inr ⟨reply, auth, bytes, rfl, hchosen, haccepted, hbytes⟩) trivial
    · rw [if_pos (hfailed.mpr haccepted)]
      exact iff_of_true ⟨_, rfl, .of_ne_zero (by decide) (show (-3 : ℤ) ≠ 0 by decide) htests⟩
        fun h => absurd h haccepted
  · refine iff_of_false ?_ fun h => hlen h.1
    rintro ⟨call, hcall, hsound⟩
    have hmem : ⟨auth, sock5AuthFailed⟩ ∈ call.tests := by
      split_ifs at hcall
      · rw [← Option.some.inj hcall]
        simp
      · exact mem_tests_sock5Connect hcall (by simp)
    exact hlen (sock5AuthFailed_ofReceived_iff.mp (hsound.received _ hmem))

/-- The handshake over SOCKS 5 behind a readable reply about the method. -/
theorem doSock5Connect_of_ok {reply : List UInt8} {stale : Mem} (hread : Readable reply)
    (hok : exchange s 0 (overlay sock5Methods stale) =
      .ok (reply, overlay reply (overlay sock5Methods stale))) :
    (∃ call, doSock5Connect s proxy t stale = some call ∧ SoundCall .sock5 call) ↔
      (Replies 5 2 reply → s.sends 1 = true → ∀ auth ∈ s.recvs 1, 2 ≤ auth.length ∧
        (auth[1]? = some 0 → GoodConnect s 2 t True)) ∧
      (¬ Replies 5 2 reply → GoodConnect s 1 t (Replies 5 0 reply)) := by
  rw [doSock5Connect, hok]
  dsimp only
  have hauth := sock5Auth_of_readable hread (overlay sock5Methods stale)
  have htests : ∀ t ∈ [⟨reply, sock5Auth⟩], ProxyTest.OfReceived t :=
    List.forall_mem_singleton.mpr (sock5Auth_ofReceived_iff.mpr hread)
  by_cases hchosen : Replies 5 2 reply
  · rw [if_pos (hauth.mpr hchosen)]
    simp only [hchosen, true_imp_iff, not_true_eq_false, false_imp_iff, and_true]
    rcases exchange_cases s 1 (overlay (sock5AuthRequest proxy ++ [0])
      (overlay reply (overlay sock5Methods stale))) with
      ⟨ret, herror, hret, hnone⟩ | ⟨auth, hok, hsend, hrecv⟩
    · rw [herror]
      exact iff_of_true ⟨_, rfl, .of_ne_zero (by decide) hret htests⟩ (forall_reply_of_none hnone)
    · rw [hok, forall_reply_iff hsend hrecv]
      exact sock5Auth_iff _ _ hread hchosen
  · rw [if_neg (mt hauth.mp hchosen), sock5Connect_iff (Replies 5 0 reply)]
    · simp [hchosen]
    · exact htests
    · intro bytes hbytes
      constructor
      · rintro (⟨reply', bytes', heq, hreply, -⟩ | ⟨reply', auth, bytes', heq, -⟩)
        · obtain ⟨rfl, -⟩ := List.cons_eq_cons.mp heq
          exact hreply
        · cases heq
      · exact fun hreply => .inl ⟨reply, bytes, rfl, hreply, hbytes⟩

/-- The reply about the method is always tested. -/
theorem mem_tests_doSock5Connect {reply : List UInt8} {stale : Mem}
    (hok : exchange s 0 (overlay sock5Methods stale) =
      .ok (reply, overlay reply (overlay sock5Methods stale)))
    (h : doSock5Connect s proxy t stale = some call) : ⟨reply, sock5Auth⟩ ∈ call.tests := by
  rw [doSock5Connect, hok] at h
  dsimp only at h
  split at h
  · rcases exchange_cases s 1 (overlay (sock5AuthRequest proxy ++ [0])
      (overlay reply (overlay sock5Methods stale))) with
      ⟨ret, herror, -, -⟩ | ⟨auth, hok, -, -⟩
    · rw [herror] at h
      rw [← Option.some.inj h]
      exact List.mem_singleton_self _
    · rw [hok] at h
      dsimp only at h
      split at h
      · rw [← Option.some.inj h]
        exact List.mem_cons_self
      · exact mem_tests_sock5Connect h List.mem_cons_self
  · exact mem_tests_sock5Connect h (List.mem_singleton_self _)

/-- The handshake over SOCKS 5. -/
theorem sound_sock5_iff : Sound .sock5 s proxy t ↔ GoodProxy .sock5 s proxy t := by
  rw [Sound, GoodProxy]
  simp only [ProxyKind.connect]
  constructor
  · intro h hsend reply hreply
    obtain ⟨call, hcall, hsound⟩ := h fun _ => 0
    rcases exchange_cases s 0 (overlay sock5Methods fun _ => 0) with
      ⟨ret, -, -, hnone⟩ | ⟨reply', hok, -, hrecv⟩
    · rw [hnone hsend] at hreply
      cases hreply
    · rw [hrecv] at hreply
      obtain rfl := Option.some.inj hreply
      have hread := sock5Auth_ofReceived_iff.mp
        (hsound.received _ (mem_tests_doSock5Connect hok hcall))
      exact ⟨hread, (doSock5Connect_of_ok hread hok).mp ⟨call, hcall, hsound⟩⟩
  · intro h stale
    rcases exchange_cases s 0 (overlay sock5Methods stale) with
      ⟨ret, herror, hret, -⟩ | ⟨reply, hok, hsend, hrecv⟩
    · rw [doSock5Connect, herror]
      exact ⟨_, rfl, .of_ne_zero (by decide) hret (by simp)⟩
    · obtain ⟨hread, hrest⟩ := h hsend reply hrecv
      exact (doSock5Connect_of_ok hread hok).mpr hrest

end

/-- A handshake succeeds only where the proxy granted the connection, tests nothing but what was
received, and sends a complete request, exactly for these replies, and never over SOCKS 4. -/
theorem sound_iff (kind : ProxyKind) (s : ProxySocket) (proxy : ProxyParam) (t : ProxyTarget) :
    Sound kind s proxy t ↔ GoodProxy kind s proxy t := by
  cases kind with
  | http11 => exact sound_http11_iff
  | sock4 => exact iff_of_false not_sound_sock4 id
  | sock5 => exact sound_sock5_iff

/-- A proxy that answers every request with these bytes. -/
def answering (bytes : List UInt8) (h : bytes.length ≤ 200) : ProxySocket :=
  ⟨fun _ => true, fun _ => some bytes, fun _ _ hbytes => Option.some.inj hbytes ▸ h⟩

/-- A server whose address is not known, on port 443. -/
def exampleTarget : ProxyTarget := ⟨⟨ascii "example", by decide⟩, 443, fun _ => 0xFFFFFFFF⟩

/-- No user and no password. -/
def noUser : ProxyParam := ⟨0, ⟨[], by decide⟩, ⟨[], by decide⟩, by decide, by decide⟩

/-- A reply that forbids the connection, and has `200` in its text. -/
def forbidden : List UInt8 := ascii "HTTP/1.0 403 quota of 200 used"

theorem not_sound_forbidden :
    ¬ ∀ (kind : ProxyKind) (s : ProxySocket) (proxy : ProxyParam) (t : ProxyTarget),
      Sound kind s proxy t := by
  intro h
  obtain ⟨-, hreplies⟩ :=
    sound_http11_iff.mp (h .http11 (answering forbidden (by decide)) noUser exampleTarget)
  have hgood : GoodHttp forbidden := hreplies rfl forbidden rfl
  have hsub : ascii "200" <:+: (CString.ofBytes forbidden).1 := by decide
  obtain ⟨major, minor, rest, hline, -, -, -⟩ := hgood.2 hsub
  -- the code begins with another digit
  have hcode : forbidden[9]? = some 50 := by
    rw [hline]
    rfl
  exact absurd hcode (by decide)

end Gendo.Client
