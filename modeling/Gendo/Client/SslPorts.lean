import Gendo.Client.CfgItem
import Gendo.Library.ByteMemory
import Gendo.Server.StringSplit
import Mathlib.Data.List.Infix

/-!
# The ports of a server for OpenVPN

`CGendoSvrList::Insert` has the string with the ports of a server split into `PortAry`, ten rows of
32 bytes, and collects the ports; `ConnectSSL` takes a random one of them. `StringSplit` looks
neither at the size of a row nor, behind the last separator, at the number of rows; and when no port
of a protocol was collected, the random number is divided by zero.

`sslPortsOk_iff` says for which servers the ports of the entries `tcp=N` and `udp=N` are collected,
and a port can be taken for each protocol that the server offers.
-/

namespace Gendo.Client

open ByteMemory Pieces Shlwapi TextStream

open Cfg (atoi)

/-- The protocols of OpenVPN. -/
inductive SslProto
  | udp
  | tcp
  deriving DecidableEq, Repr

namespace SslProto

/-- `PROTO_OPENVPN_UDP` and `PROTO_OPENVPN_TCP` -/
def flag : SslProto → UInt32
  | udp => 4
  | tcp => 8

/-- What an entry of the string begins with. -/
def key : SslProto → List UInt8
  | udp => ascii "udp"
  | tcp => ascii "tcp"

end SslProto

/-- The fields of a `server_t` that are about OpenVPN. -/
structure SslServer where
  protocol : UInt32
  sslPort : CString
  deriving DecidableEq

/-- `ssl_tcp` and `ssl_udp`, up to their counts. -/
structure SslPorts where
  sslTcp : List ℤ
  sslUdp : List ℤ
  deriving DecidableEq, Repr

/-- The ports of a protocol. -/
def SslPorts.ports (s : SslPorts) : SslProto → List ℤ
  | .udp => s.sslUdp
  | .tcp => s.sslTcp

/-- The size of `PortAry`. -/
def PORT_ARY_SIZE : ℕ := 320

/-- What the loop of `ParseServerIpPort` finds in a row. -/
def rowPort (row : List UInt8) : Option (SslProto × ℤ) :=
  -- `strchr(PortAry[i], '=')`
  match row.dropWhile fun b => b ≠ 61 with
  | [] => none
  | _ :: tmp =>
    let port := (atoi tmp).toInt
    if port ≤ 0 ∨ 65535 ≤ port then none
    else if SslProto.tcp.key <:+: row then some (.tcp, port)
    else if SslProto.udp.key <:+: row then some (.udp, port)
    else none

/-- A port that was found is stored. -/
def SslPorts.store (s : SslPorts) : Option (SslProto × ℤ) → SslPorts
  | none => s
  | some (.tcp, port) => { s with sslTcp := s.sslTcp ++ [port] }
  | some (.udp, port) => { s with sslUdp := s.sslUdp ++ [port] }

/-- The loop of `ParseServerIpPort`. -/
def parseRows : List (List UInt8) → SslPorts → SslPorts
  | [], s => s
  | row :: rows, s => parseRows rows (s.store (rowPort row))

/-- `PortAry` behind the writes of `StringSplit`; `none` when one of them is outside. -/
def writeRows : List SplitWrite → Mem → Option Mem
  | [], ary => some ary
  | w :: ws, ary => do
    let bytes ← w.bytes
    if 32 * w.item + bytes.length ≤ PORT_ARY_SIZE then
      writeRows ws (Patch.apply ⟨32 * w.item, bytes⟩ ary)
    else none

/-- The return value of `ParseServerIpPort`, and the ports. -/
structure ParseCall where
  ret : ℤ
  ports : SslPorts
  deriving DecidableEq, Repr

/-- `ParseServerIpPort`, where these bytes are in `PortAry` before. -/
def parseServerIpPort (stale : Mem) (sslPort : CString) : Option ParseCall := do
  let call := stringSplit sslPort.1 44 10
  let ary ← writeRows call.dst stale
  if call.ret ≠ 0 then return ⟨-1, ⟨[], []⟩⟩
  if call.n ≤ 0 ∨ 10 ≤ call.n then return ⟨-1, ⟨[], []⟩⟩
  let rows := (List.range call.n.toNat).map fun i =>
    (CString.read ary (32 * i) (PORT_ARY_SIZE - 32 * i)).1
  return ⟨0, parseRows rows ⟨[], []⟩⟩

/-- The ports of the record that `Insert` makes: what `ParseServerIpPort` returns is not
looked at. -/
def insertPorts (stale : Mem) (svr : SslServer) : Option SslPorts :=
  (parseServerIpPort stale svr.sslPort).map ParseCall.ports

/-- `GetRandomSSLPort`, where `rand` returns this; `none` when it is divided by zero. -/
def getRandomSSLPort (rand : ℕ) (portAry : List ℤ) : Option ℤ :=
  if portAry.length = 0 then none else portAry[rand % portAry.length]?

/-- What `TapStatus`, `TapInstall` and `TapSetName` return. -/
structure Tap where
  tapStatus : ℤ
  tapInstall : ℤ
  tapSetName : ℤ
  deriving DecidableEq, Repr

/-- The return value of `ConnectSSL`, and the protocol and port given to `SetParams`. -/
structure SslCall where
  ret : ℤ
  params : Option (ℤ × ℤ)
  deriving DecidableEq, Repr

/-- `ConnectSSL` -/
def connectSSL (tap : Tap) (rand : ℕ) (svr : SslPorts) (protocol : UInt32) : Option SslCall :=
  if tap.tapStatus ≠ 0 ∧ (tap.tapInstall ≠ 0 ∨ tap.tapSetName ≠ 0) then some ⟨1, none⟩
  else if protocol = SslProto.tcp.flag then
    (getRandomSSLPort rand svr.sslTcp).map fun port => ⟨0, some (1, port)⟩
  else (getRandomSSLPort rand svr.sslUdp).map fun port => ⟨0, some (0, port)⟩

/-! ## What is meant -/

/-- The port of an entry `tcp=N` or `udp=N`, if it is valid. -/
def entryPort (proto : SslProto) (entry : List UInt8) : Option ℤ :=
  let digits := entry.drop 4
  let port := digitsValue 0 digits
  if entry.take 4 = proto.key ++ [61] ∧ digits ≠ [] ∧ digits.all isDigit ∧ 1 ≤ port ∧ port ≤ 65535
  then some port else none

/-- The entries of the string. -/
def SslServer.entries (svr : SslServer) : List (List UInt8) := pieces 44 svr.sslPort.1

/-- The valid ports are collected, with all writes inside of the arrays, and where the server offers
a protocol a collected port can be taken. -/
structure SslPortsOk (svr : SslServer) : Prop where
  collects : svr.sslPort.1.length ≤ 127 → ∀ stale, ∃ ports, insertPorts stale svr = some ports ∧
    ∀ proto, (ports.ports proto).length ≤ 32 ∧
      ports.ports proto = svr.entries.filterMap (entryPort proto)
  connects : ∀ proto, svr.protocol &&& proto.flag ≠ 0 → ∀ stale tap rand, ∃ ports call,
    insertPorts stale svr = some ports ∧ connectSSL tap rand ports proto.flag = some call ∧
      ∀ params ∈ call.params, params.2 ∈ ports.ports proto

/-- The port of a protocol that is read in a row. -/
def readPort (proto : SslProto) (row : List UInt8) : Option ℤ :=
  (rowPort row).bind fun r => if r.1 = proto then some r.2 else none

/-- The strings in the rows of the array behind these entries: one that fills its row goes on with
the next one. -/
def rowStrings : List (List UInt8) → List (List UInt8)
  | [] => []
  | p :: ps =>
    (if p.length < 32 ∨ ps = [] then p else p.take 32 ++ (rowStrings ps).headD []) :: rowStrings ps

/-- The entries, stored row by row, stay inside of the array. -/
def Fits (ps : List (List UInt8)) : Prop :=
  ps.length ≤ 10 ∧ ∀ i, ∀ h : i < ps.length, 32 * i + ps[i].length < PORT_ARY_SIZE

/-- The rows are read as the entries are meant. Ten entries are not read at all, so none may be
valid. Where all are shorter than a row each is read for itself: it is not for the port 65535, and
no other text than `tcp=N` or `udp=N` passes for a port, such as one with a blank in front of the
number or letters around the key. An entry of 32 characters or more is read as its first 32 and the
string of the next row, unless it is the last one; then all rows together have to have the ports of
all entries, in their order. -/
def Legible (ps : List (List UInt8)) : Prop :=
  if ps.length = 10 then ∀ proto, ∀ p ∈ ps, entryPort proto p = none
  else if ∀ p ∈ ps, p.length < 32 then ∀ proto, ∀ p ∈ ps, readPort proto p = entryPort proto p
  else ∀ proto, (rowStrings ps).filterMap (readPort proto) = ps.filterMap (entryPort proto)

/-- The strings of a server that the client copes with. -/
structure GoodSslPorts (svr : SslServer) : Prop where
  collects : svr.sslPort.1.length ≤ 127 → Fits svr.entries ∧ Legible svr.entries
  connects : ∀ proto, svr.protocol &&& proto.flag ≠ 0 →
    Fits svr.entries ∧ svr.entries.length ≠ 10 ∧
      ∃ row ∈ rowStrings svr.entries, (readPort proto row).isSome

/-! ## The rows -/

section

variable {proto : SslProto} {ps : List (List UInt8)} {p row : List UInt8} {ary stale : Mem} {k : ℕ}
  {s ports : SslPorts} {port : ℤ}

/-- The writes of some entries, from a row on. -/
def entryWrites (k : ℕ) (ps : List (List UInt8)) : List SplitWrite :=
  ps.mapIdx fun j p => splitWrite [0] (k + j) p

theorem entryWrites_cons (k : ℕ) (p : List UInt8) (ps : List (List UInt8)) :
    entryWrites k (p :: ps) = splitWrite [0] k p :: entryWrites (k + 1) ps :=
  mapIdx_add_cons (fun i p => splitWrite [0] i p) k p ps

theorem writeRows_cons (ws : List SplitWrite) :
    writeRows (splitWrite [0] k p :: ws) ary =
      if 32 * k + p.length < PORT_ARY_SIZE then
        writeRows ws (Patch.apply ⟨32 * k, p ++ [0]⟩ ary)
      else none := by
  rw [writeRows, splitWrite]
  by_cases hshort : p.length < 2 ^ 31
  · rw [if_pos hshort]
    simp only [Option.bind_eq_bind, Option.bind_some, List.length_append, List.length_singleton,
      Nat.lt_iff_add_one_le, Nat.add_assoc]
  · -- the length is no `int`
    rw [if_neg hshort, if_neg (by rw [PORT_ARY_SIZE]; omega)]
    rfl

/-- The writes of entries are inside exactly if each ends in front of the end of the array. -/
theorem writeRows_isSome_iff :
    (writeRows (entryWrites k ps) ary).isSome ↔
      ∀ i, ∀ h : i < ps.length, 32 * (k + i) + ps[i].length < PORT_ARY_SIZE := by
  induction ps generalizing k ary with
  | nil => simp [entryWrites, writeRows]
  | cons p ps ih =>
    rw [entryWrites_cons, writeRows_cons]
    split_ifs with hin
    · rw [ih]
      constructor
      · rintro h (_ | i) hi
        · exact hin
        · have hrest := h i (Nat.lt_of_succ_lt_succ hi)
          rw [Nat.add_assoc, Nat.add_comm 1] at hrest
          exact hrest
      · intro h i hi
        have hrest := h (i + 1) (Nat.succ_lt_succ hi)
        rw [Nat.add_assoc, Nat.add_comm 1]
        exact hrest
    · refine iff_of_false Bool.false_ne_true fun h => hin ?_
      exact h 0 (Nat.succ_pos _)

/-- What is in front of the rows stays. -/
theorem writeRows_frame {ary' : Mem} (h : writeRows (entryWrites k ps) ary = some ary') {i : ℕ}
    (hi : i < 32 * k) : ary' i = ary i := by
  induction ps generalizing k ary with
  | nil =>
    cases h
    rfl
  | cons p ps ih =>
    rw [entryWrites_cons, writeRows_cons] at h
    split_ifs at h with hin
    rw [ih h (by omega), Patch.apply_of_not_covers]
    rintro ⟨hle, -⟩
    exact absurd hi (Nat.not_lt.mpr hle)

/-- The first bytes of an entry that was stored. -/
theorem read_of_writeRows {ary' : Mem}
    (h : writeRows (entryWrites (k + 1) ps) (Patch.apply ⟨32 * k, p ++ [0]⟩ ary) = some ary')
    {n : ℕ} (hn : n ≤ p.length + 1) (hrow : n ≤ 32 ∨ ps = []) :
    read ary' (32 * k) n = (p ++ [0]).take n := by
  have hsame : read ary' (32 * k) n = read (Patch.apply ⟨32 * k, p ++ [0]⟩ ary) (32 * k) n := by
    refine read_eq_read_iff.mpr fun i hi => ?_
    rcases hrow with hrow | rfl
    · exact writeRows_frame h (by omega)
    · cases h
      rfl
  have hself : read (Patch.apply ⟨32 * k, p ++ [0]⟩ ary) (32 * k) (p ++ [0]).length = p ++ [0] :=
    read_apply_self ⟨32 * k, p ++ [0]⟩ ary
  have hle : n ≤ (p ++ [0]).length := by simpa using hn
  rw [hsame, ← take_read _ _ hle, hself]

/-- The string in the first row. -/
theorem cString_of_writeRows {ary' : Mem} (hp : 0 ∉ p)
    (h : writeRows (entryWrites k (p :: ps)) ary = some ary') (hrow : p.length < 32 ∨ ps = []) :
    (CString.read ary' (32 * k) (PORT_ARY_SIZE - 32 * k)).1 = p := by
  rw [entryWrites_cons, writeRows_cons] at h
  split_ifs at h with hin
  have hstring := read_of_writeRows h (Nat.le_refl _) (hrow.imp_left (by omega))
  rw [List.take_of_length_le (by simp)] at hstring
  exact CString.read_of_terminated hp (by omega) hstring

/-- What the rows hold then. -/
theorem rows_of_writeRows {ary' : Mem} (hps : ∀ p ∈ ps, 0 ∉ p)
    (h : writeRows (entryWrites k ps) ary = some ary') :
    ((List.range ps.length).map fun i =>
      (CString.read ary' (32 * (k + i)) (PORT_ARY_SIZE - 32 * (k + i))).1) = rowStrings ps := by
  induction ps generalizing k ary with
  | nil => rfl
  | cons p ps ih =>
    obtain ⟨hp, hps⟩ := List.forall_mem_cons.mp hps
    have hcons := h
    rw [entryWrites_cons, writeRows_cons] at h
    split_ifs at h with hin
    have hrest := ih hps h
    have hlater : ((List.range ps.length).map Nat.succ).map (fun i =>
        (CString.read ary' (32 * (k + i)) (PORT_ARY_SIZE - 32 * (k + i))).1) = rowStrings ps := by
      rw [List.map_map, ← hrest]
      refine List.map_congr_left fun i _ => ?_
      simp only [Function.comp_apply, Nat.succ_eq_add_one, Nat.add_assoc, Nat.add_comm 1]
    rw [List.length_cons, List.range_succ_eq_map, List.map_cons, hlater, rowStrings]
    refine congrArg₂ List.cons ?_ rfl
    rw [Nat.add_zero]
    split_ifs with hrow
    · exact cString_of_writeRows hp hcons hrow
    · -- the row is full, and the string goes on in the next one
      rw [not_or] at hrow
      obtain ⟨q, qs, rfl⟩ := List.exists_cons_of_ne_nil hrow.2
      have hnext : 32 * (k + 1) < PORT_ARY_SIZE := by
        have hsome := Option.isSome_iff_exists.mpr ⟨ary', h⟩
        have hfirst := writeRows_isSome_iff.mp hsome 0 (Nat.succ_pos _)
        omega
      have hsplit : PORT_ARY_SIZE - 32 * k = 32 + (PORT_ARY_SIZE - 32 * (k + 1)) := by omega
      have hfull := read_of_writeRows h (n := 32) (by omega) (.inl (Nat.le_refl 32))
      rw [List.take_append_of_le_length (by omega)] at hfull
      have hnotMem : 0 ∉ p.take 32 := fun hmem => hp (List.mem_of_mem_take hmem)
      rw [CString.read, hsplit, read_add, hfull, CString.ofBytes_append_of_notMem hnotMem, ← hrest,
        List.length_cons, List.range_succ_eq_map]
      rfl

/-! ## The ports of the rows -/

/-- The ports that the loop collects. -/
theorem ports_parseRows (rows : List (List UInt8)) (s : SslPorts) (proto : SslProto) :
    (parseRows rows s).ports proto = s.ports proto ++ rows.filterMap (readPort proto) := by
  induction rows generalizing s with
  | nil => simp [parseRows]
  | cons row rows ih =>
    rw [parseRows, ih, List.filterMap_cons, readPort]
    rcases hrow : rowPort row with _ | ⟨_ | _, port⟩ <;> cases proto <;>
      simp [SslPorts.store, SslPorts.ports]

theorem readPort_lt (h : readPort proto row = some port) : port < 65535 := by
  obtain ⟨r, hr, hport⟩ := Option.bind_eq_some_iff.mp h
  have hr2 : r.2 = port := by
    split_ifs at hport
    exact Option.some.inj hport
  rw [rowPort] at hr
  split at hr
  · cases hr
  · dsimp only at hr
    split_ifs at hr with hout htcp hudp
    · rw [← hr2, ← Option.some.inj hr]
      exact not_le.mp (not_or.mp hout).2
    · rw [← hr2, ← Option.some.inj hr]
      exact not_le.mp (not_or.mp hout).2

theorem atoi_digits {ds : List UInt8} (hne : ds ≠ []) (hdigits : ∀ b ∈ ds, isDigit b = true)
    (hle : (digitsValue 0 ds : ℤ) ≤ 65535) : (atoi ds).toInt = digitsValue 0 ds := by
  have hsmall : (digitsValue 0 ds : ℤ) ≤ 2 ^ 31 - 1 := by omega
  have hlow : (-2 ^ 31 : ℤ) ≤ digitsValue 0 ds := by omega
  rw [atoi, scanInt_digits hne hdigits, Option.getD_some, min_eq_right hsmall, max_eq_right hlow]
  exact Int32.toInt_ofInt_of_le hlow (by omega)

/-- A valid entry other than 65535 is read. -/
theorem readPort_of_entryPort (h : entryPort proto p = some port) (hport : port < 65535) :
    readPort proto p = some port := by
  rw [entryPort] at h
  split_ifs at h with hentry
  obtain ⟨hkey, hdigits, hall, hpos, hle⟩ := hentry
  obtain ⟨ds, hds⟩ : ∃ ds, ds = p.drop 4 := ⟨_, rfl⟩
  rw [← hds] at hdigits hall hpos hle h
  obtain rfl := Option.some.inj h
  have hall' : ∀ b ∈ ds, isDigit b = true := List.all_eq_true.mp hall
  have hp : p = proto.key ++ 61 :: ds := by
    rw [← List.take_append_drop 4 p, hkey, ← hds, List.append_assoc, List.singleton_append]
  have hdrop : p.dropWhile (fun b => b ≠ 61) = 61 :: ds := by
    have hno : proto.key.all (fun b => b ≠ 61) = true := by cases proto <;> decide
    rw [hp, List.dropWhile_append_of_pos (List.all_eq_true.mp hno)]
    rfl
  have hself : proto.key <:+: p := by
    rw [hp]
    exact (List.prefix_append _ _).isInfix
  have hvalue := atoi_digits hdigits hall' (by omega)
  rw [readPort, rowPort, hdrop]
  dsimp only
  rw [hvalue, if_neg (by omega)]
  cases proto with
  | tcp =>
    rw [if_pos hself]
    rfl
  | udp =>
    -- there is no `t` in the entry
    have hother : ¬ SslProto.tcp.key <:+: p := by
      intro hsub
      have hmem : (116 : UInt8) ∈ p := hsub.subset (by decide)
      rw [hp] at hmem
      rcases List.mem_append.mp hmem with hmem | hmem
      · exact absurd hmem (by decide)
      · rcases List.mem_cons.mp hmem with hmem | hmem
        · exact absurd hmem (by decide)
        · exact absurd (hall' 116 hmem) (by decide)
    rw [if_neg hother, if_pos hself]
    rfl

/-! ## The whole string -/

/-- An element between the separators is one of the list. -/
theorem mem_of_mem_pieces {α : Type*} [DecidableEq α] {sep a : α} {l p : List α}
    (hp : p ∈ pieces sep l) (ha : a ∈ p) : a ∈ l := by
  induction l using pieces_induction sep with
  | single l h =>
    rw [pieces_of_not_mem h] at hp
    split_ifs at hp
    · cases hp
    · rwa [← List.mem_singleton.mp hp]
  | cut l rest h ih =>
    rw [pieces_append_cons h] at hp
    rcases List.mem_cons.mp hp with rfl | hp
    · exact List.mem_append_left _ ha
    · exact List.mem_append_right _ (List.mem_cons_of_mem _ (ih hp))

/-- Writes one of which is in no row are not all inside. -/
theorem writeRows_of_mem {ws : List SplitWrite} (hw : splitWrite [0] k p ∈ ws) (hk : 10 ≤ k) :
    writeRows ws ary = none := by
  induction ws generalizing ary with
  | nil => cases hw
  | cons w ws ih =>
    rcases List.mem_cons.mp hw with rfl | hw
    · rw [writeRows_cons, if_neg (by rw [PORT_ARY_SIZE]; omega)]
    · rw [writeRows]
      rcases w.bytes with _ | bytes
      · rfl
      · simp only [Option.bind_eq_bind, Option.bind_some]
        split_ifs
        · exact ih hw
        · rfl

/-- The ports that are collected of entries that fit. -/
def collected (ps : List (List UInt8)) : SslPorts :=
  if ps.length = 10 then ⟨[], []⟩ else parseRows (rowStrings ps) ⟨[], []⟩

/-- Without room for the entries, something is written outside of the array. -/
theorem insertPorts_of_not_fits {svr : SslServer} (h : ¬ Fits svr.entries) :
    insertPorts stale svr = none := by
  have hwrites : writeRows (stringSplit svr.sslPort.1 44 10).dst stale = none := by
    rw [stringSplit, if_neg (by decide)]
    rcases Nat.lt_or_ge 10 svr.entries.length with hlt | hle
    · obtain ⟨j, p, hw, hj⟩ : ∃ j p, splitWrite [0] j p ∈
          (splitLoop [0] 44 10 0 svr.sslPort.1 []).dst ∧ (10 : ℤ) ≤ (j : ℤ) :=
        exists_mem_splitLoop (by decide) (by rw [SslServer.entries] at hlt; omega)
      exact writeRows_of_mem hw (by omega)
    · rw [splitLoop_of_le (by rw [SslServer.entries] at hle; omega), List.nil_append]
      refine Option.not_isSome_iff_eq_none.mp fun hsome => h ⟨hle, ?_⟩
      have hinside := (@writeRows_isSome_iff svr.entries stale 0).mp hsome
      simpa only [Nat.zero_add] using hinside
  rw [insertPorts, parseServerIpPort, hwrites]
  rfl

/-- With room, the ports in the rows are collected, but for those of ten entries. -/
theorem insertPorts_of_fits {svr : SslServer} (h : Fits svr.entries) (stale : Mem) :
    insertPorts stale svr = some (collected svr.entries) := by
  obtain ⟨hle, hinside⟩ := h
  have hcall : stringSplit svr.sslPort.1 44 10 =
      ⟨0, svr.entries.length, entryWrites 0 svr.entries⟩ := by
    rw [stringSplit, if_neg (by decide), splitLoop_of_le (by rw [SslServer.entries] at hle; omega)]
    simp [SslServer.entries, entryWrites]
  obtain ⟨ary, hary⟩ := Option.isSome_iff_exists.mp
    ((@writeRows_isSome_iff svr.entries stale 0).mpr (by simpa only [Nat.zero_add] using hinside))
  have hstring : ∀ p ∈ svr.entries, 0 ∉ p := fun p hp hzero =>
    svr.sslPort.2 (mem_of_mem_pieces hp hzero)
  have hrows := rows_of_writeRows hstring hary
  simp only [Nat.zero_add] at hrows
  rw [collected, insertPorts, parseServerIpPort, hcall]
  simp only [Option.bind_eq_bind, hary, Option.bind_some, Int.toNat_natCast]
  rw [if_neg (by decide)]
  by_cases hten : svr.entries.length = 10
  · rw [if_pos (by omega), if_pos hten]
    rfl
  · rw [if_neg hten]
    split_ifs with hempty
    · -- there are no entries at all
      have hnil : svr.entries = [] := List.length_eq_zero_iff.mp (by omega)
      rw [hnil]
      rfl
    · rw [hrows]
      rfl

/-- What is known when the writes are inside. -/
theorem insertPorts_eq_some_iff {svr : SslServer} :
    insertPorts stale svr = some ports ↔ Fits svr.entries ∧ collected svr.entries = ports := by
  by_cases h : Fits svr.entries
  · rw [insertPorts_of_fits h, Option.some_inj, and_iff_right h]
  · rw [insertPorts_of_not_fits h]
    exact iff_of_false (Option.some_ne_none ports).symm fun hports => h hports.1

theorem filterMap_sublist {α β : Type*} {f g : α → Option β} {l : List α}
    (h : ∀ a ∈ l, ∀ b, f a = some b → g a = some b) :
    (l.filterMap f).Sublist (l.filterMap g) := by
  induction l with
  | nil => exact List.Sublist.refl []
  | cons a l ih =>
    obtain ⟨ha, hl⟩ := List.forall_mem_cons.mp h
    rw [List.filterMap_cons, List.filterMap_cons]
    rcases hf : f a with _ | b
    · rcases g a with _ | c
      · exact ih hl
      · exact (ih hl).cons c
    · rw [ha b hf]
      exact (ih hl).cons_cons b

/-- Two ways to read elements, one of which reads all that the other does, read the same list
exactly if they read each element alike. -/
theorem filterMap_eq_iff {α β : Type*} {f g : α → Option β} {l : List α}
    (h : ∀ a ∈ l, ∀ b, f a = some b → g a = some b) :
    l.filterMap f = l.filterMap g ↔ ∀ a ∈ l, f a = g a := by
  induction l with
  | nil => simp
  | cons a l ih =>
    obtain ⟨ha, hl⟩ := List.forall_mem_cons.mp h
    rw [List.forall_mem_cons, ← ih hl, List.filterMap_cons, List.filterMap_cons]
    rcases hf : f a with _ | b
    · rcases hg : g a with _ | c
      · simp
      · -- the second list is longer
        refine iff_of_false (fun heq => ?_) fun hboth => absurd hboth.1 (by simp)
        have hlen := (filterMap_sublist hl).length_le
        have hlong := congrArg List.length heq
        simp only [List.length_cons] at hlong
        omega
    · rw [ha b hf]
      simp

/-- Where every entry is shorter than a row, the rows are the entries. -/
theorem rowStrings_of_short (h : ∀ p ∈ ps, p.length < 32) : rowStrings ps = ps := by
  induction ps with
  | nil => rfl
  | cons p ps ih =>
    obtain ⟨hp, hps⟩ := List.forall_mem_cons.mp h
    rw [rowStrings, if_pos (.inl hp), ih hps]

/-- The ports of short entries are read exactly if each entry is read as it is meant. -/
theorem filterMap_readPort_iff (proto : SslProto) (ps : List (List UInt8)) :
    ps.filterMap (readPort proto) = ps.filterMap (entryPort proto) ↔
      ∀ p ∈ ps, readPort proto p = entryPort proto p := by
  constructor
  · intro h
    have hread : ∀ p ∈ ps, ∀ port, entryPort proto p = some port →
        readPort proto p = some port := by
      intro p hp port hport
      -- the port was collected, so it is not 65535
      have hmem : port ∈ ps.filterMap (readPort proto) := by
        rw [h]
        exact List.mem_filterMap.mpr ⟨p, hp, hport⟩
      obtain ⟨q, -, hq⟩ := List.mem_filterMap.mp hmem
      exact readPort_of_entryPort hport (readPort_lt hq)
    intro p hp
    exact ((filterMap_eq_iff hread).mp h.symm p hp).symm
  · exact fun h => List.filterMap_congr h

theorem ports_nil (proto : SslProto) : (⟨[], []⟩ : SslPorts).ports proto = [] := by
  cases proto <;> rfl

/-- What is collected are the valid ports exactly if the rows are legible. -/
theorem legible_iff (ps : List (List UInt8)) :
    (∀ proto, (collected ps).ports proto = ps.filterMap (entryPort proto)) ↔ Legible ps := by
  rw [Legible, collected]
  split_ifs with hten hshort
  · refine forall_congr' fun proto => ?_
    rw [ports_nil, eq_comm, List.filterMap_eq_nil_iff]
  · refine forall_congr' fun proto => ?_
    rw [ports_parseRows, ports_nil, List.nil_append, rowStrings_of_short hshort,
      filterMap_readPort_iff]
  · refine forall_congr' fun proto => ?_
    rw [ports_parseRows, ports_nil, List.nil_append]

/-- A port of the protocol was collected. -/
theorem ports_collected_ne_nil_iff :
    (collected ps).ports proto ≠ [] ↔
      ps.length ≠ 10 ∧ ∃ row ∈ rowStrings ps, (readPort proto row).isSome := by
  rw [collected]
  split_ifs with hten
  · simp [ports_nil, hten]
  · rw [ports_parseRows, ports_nil, List.nil_append, and_iff_right hten, ne_eq,
      List.filterMap_eq_nil_iff]
    simp [Option.isSome_iff_ne_none]

theorem length_rowStrings (ps : List (List UInt8)) : (rowStrings ps).length = ps.length := by
  induction ps with
  | nil => rfl
  | cons p ps ih => rw [rowStrings, List.length_cons, List.length_cons, ih]

/-- There is room for the ports of the rows. -/
theorem length_ports_collected_le (h : Fits ps) : ((collected ps).ports proto).length ≤ 32 := by
  rw [collected]
  split_ifs
  · simp [ports_nil]
  · have hle := List.length_filterMap_le (readPort proto) (rowStrings ps)
    rw [length_rowStrings] at hle
    rw [ports_parseRows, ports_nil, List.nil_append]
    have hten := h.1
    omega

end

/-! ## A port for the connection -/

section

variable {rand : ℕ} {portAry : List ℤ} {ports : SslPorts} {proto : SslProto}

/-- A port can be taken exactly if there is one, and then it is one of them. -/
theorem getRandomSSLPort_spec (rand : ℕ) (portAry : List ℤ) :
    (portAry = [] → getRandomSSLPort rand portAry = none) ∧
      (portAry ≠ [] → ∃ port ∈ portAry, getRandomSSLPort rand portAry = some port) := by
  constructor
  · rintro rfl
    rfl
  · intro hne
    have hpos := List.length_pos_iff.mpr hne
    have hlt := Nat.mod_lt rand hpos
    refine ⟨portAry[rand % portAry.length], List.getElem_mem hlt, ?_⟩
    rw [getRandomSSLPort, if_neg (Nat.ne_of_gt hpos), List.getElem?_eq_getElem hlt]

theorem connectSSL_eq (tap : Tap) (rand : ℕ) (ports : SslPorts) (proto : SslProto) :
    connectSSL tap rand ports proto.flag =
      if tap.tapStatus ≠ 0 ∧ (tap.tapInstall ≠ 0 ∨ tap.tapSetName ≠ 0) then some ⟨1, none⟩
      else (getRandomSSLPort rand (ports.ports proto)).map fun port =>
        ⟨0, some (if proto = .tcp then 1 else 0, port)⟩ := by
  cases proto <;> rfl

/-- A connection finds a port, whatever the adapter and the random number, exactly if there is
one. -/
theorem connectSSL_iff :
    (∀ tap rand, ∃ call, connectSSL tap rand ports proto.flag = some call ∧
      ∀ params ∈ call.params, params.2 ∈ ports.ports proto) ↔ ports.ports proto ≠ [] := by
  constructor
  · intro h hnil
    obtain ⟨call, hcall, -⟩ := h ⟨0, 0, 0⟩ 0
    rw [connectSSL_eq, if_neg (by decide), (getRandomSSLPort_spec 0 _).1 hnil] at hcall
    cases hcall
  · intro hne tap rand
    obtain ⟨port, hmem, hport⟩ := (getRandomSSLPort_spec rand _).2 hne
    rw [connectSSL_eq, hport]
    by_cases htap : tap.tapStatus ≠ 0 ∧ (tap.tapInstall ≠ 0 ∨ tap.tapSetName ≠ 0)
    · rw [if_pos htap]
      exact ⟨_, rfl, by rintro params ⟨⟩⟩
    · rw [if_neg htap]
      refine ⟨_, rfl, ?_⟩
      rintro params ⟨⟩
      exact hmem

end

/-- The ports of a server are collected and can be used exactly if its entries fit the array and are
read as they are meant, and one of them is read for each protocol that it offers. -/
theorem sslPortsOk_iff (svr : SslServer) : SslPortsOk svr ↔ GoodSslPorts svr := by
  constructor
  · intro h
    refine ⟨fun hlen => ?_, fun proto hoffer => ?_⟩
    · obtain ⟨ports, hports, hentries⟩ := h.collects hlen fun _ => 0
      obtain ⟨hfits, rfl⟩ := insertPorts_eq_some_iff.mp hports
      exact ⟨hfits, (legible_iff _).mp fun proto => (hentries proto).2⟩
    · have hconnect : ∀ tap rand, ∃ call,
          connectSSL tap rand (collected svr.entries) proto.flag = some call ∧
            ∀ params ∈ call.params, params.2 ∈ (collected svr.entries).ports proto := by
        intro tap rand
        obtain ⟨ports, call, hports, hcall⟩ := h.connects proto hoffer (fun _ => 0) tap rand
        obtain ⟨-, rfl⟩ := insertPorts_eq_some_iff.mp hports
        exact ⟨call, hcall⟩
      obtain ⟨ports, call, hports, -⟩ := h.connects proto hoffer (fun _ => 0) ⟨0, 0, 0⟩ 0
      exact ⟨(insertPorts_eq_some_iff.mp hports).1,
        ports_collected_ne_nil_iff.mp (connectSSL_iff.mp hconnect)⟩
  · intro h
    refine ⟨fun hlen stale => ?_, fun proto hoffer stale tap rand => ?_⟩
    · obtain ⟨hfits, hlegible⟩ := h.collects hlen
      exact ⟨_, insertPorts_of_fits hfits stale, fun proto =>
        ⟨length_ports_collected_le hfits, (legible_iff _).mpr hlegible proto⟩⟩
    · obtain ⟨hfits, hport⟩ := h.connects proto hoffer
      obtain ⟨call, hcall⟩ := connectSSL_iff.mpr (ports_collected_ne_nil_iff.mpr hport) tap rand
      exact ⟨_, call, insertPorts_of_fits hfits stale, hcall⟩

/-- A server that offers TCP, and names the last port for it. -/
def lastPortServer : SslServer := ⟨SslProto.tcp.flag, ⟨ascii "tcp=65535", by decide⟩⟩

theorem not_sslPortsOk_lastPort : ¬ ∀ svr : SslServer, SslPortsOk svr := by
  intro h
  obtain ⟨ports, call, hports, hcall, -⟩ :=
    (h lastPortServer).connects .tcp (by decide) (fun _ => 0) ⟨0, 0, 0⟩ 0
  obtain ⟨-, rfl⟩ := insertPorts_eq_some_iff.mp hports
  have hentries : lastPortServer.entries = [ascii "tcp=65535"] := by
    rw [SslServer.entries, pieces_of_not_mem (by decide)]
    decide
  have hnil : (collected lastPortServer.entries).ports .tcp = [] := by
    rw [hentries]
    decide +kernel
  rw [connectSSL_eq, hnil] at hcall
  cases hcall

end Gendo.Client
