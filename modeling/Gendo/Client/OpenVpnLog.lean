import Gendo.Library.LineStream
import Gendo.Library.Shlwapi
import Gendo.Library.TextStream
import Mathlib.Data.List.Infix

/-!
# The status in the OpenVPN log

`RopOpenVpn::GetStatus` reads the log line by line and goes back over the lines to the first one
with a status text. Its loop looks for the end of the file only: a line that does not fit the
buffer makes the stream fail in front of it, and the loop never ends. A line is taken up to its
first NUL.

`getStatus_iff` says for which logs the latest status is returned.
-/

namespace Gendo.Client

open BufferedLines LineStream Shlwapi TextStream

namespace RopOpenVpn

/-- A status: the text in the log, the message for the user, what is returned, and whether the
adapter is enabled. -/
structure Status where
  text : List UInt8
  msg : String
  ret : ℤ
  fixTap : Bool
  deriving DecidableEq, Repr

/-- The statuses, in the order in which `GetStatus` looks for them. -/
def statuses : List Status :=
  [ -- `OPENVP_STATUS_INIT`
   ⟨ascii "Data Channel MTU parms", "OpenVpn 正在初始化连接...", 1, false⟩,
   -- `OPENVP_STATUS_HANDSHAKE`
   ⟨ascii "TLS: Initial", "OpenVpn 正在执行SSL握手协议...", 2, false⟩,
   -- `OPENVP_STATUS_AUTH_OK`
   ⟨ascii "VERIFY OK: nsCertType=SERVER", "OpenVpn 正在认证用户信息...", 4, false⟩,
   -- `OPENVP_STATUS_HANDSHAKE_OK`
   ⟨ascii "[server] Peer Connection Initiated with ", "OpenVpn SSL握手协议协商成功...", 5, false⟩,
   -- `OPENVP_STATUS_DHCP`
   ⟨ascii "TAP-Win32", "OpenVpn 正在为本地计算机分配接入地址...", 6, false⟩,
   -- `OPENVP_STATUS_PERMISSION_DENY`
   ⟨ascii "FlushIpNetTable failed on interface",
     "OpenVpn 权限不足，请以管理员权限启动客户端！（右键单击->管理员方式启动）", -1, false⟩,
   -- `OPENVP_STATUS_NEED_TOUCH`
   ⟨ascii "Waiting for TUN/TAP interface to come up", "OpenVpn 正在修复Windows兼容性问题...", 6,
     true⟩,
   -- `OPENVP_STATUS_ALL_DONE`
   ⟨ascii "Initialization Sequence Completed", "OpenVpn 接入就绪...", 0, false⟩]

/-- The status of a line: the first one whose text it has. -/
def lineStatus (line : List UInt8) : Option Status :=
  statuses.find? fun status => status.text <:+: line

/-- The string in a buffer that holds these bytes and a NUL. -/
def cString (line : List UInt8) : List UInt8 := line.takeWhile fun b => b ≠ 0

/-- What `GetStatus` returns, and what it writes to `msg` and does to the adapter. -/
structure StatusCall where
  ret : ℤ
  msg : Option String
  fixTap : Bool
  deriving DecidableEq, Repr

/-- The status that was found when the lines are scanned backwards. -/
def reportStatus : Option Status → StatusCall
  | none => ⟨1, none, false⟩
  | some status => ⟨status.ret, some status.msg, status.fixTap⟩

/-- `GetStatus` for a log file, if there is one; `none` while its loop has not ended. -/
def getStatus (fuel : ℕ) : Option (List UInt8) → Option StatusCall
  | none => some ⟨-1, none, false⟩
  | some file => do
    let content ← (IStream.ofText (ofFile file)).readLines 512 fuel
    let content := content.map cString
    return reportStatus (content.reverse.findSome? lineStatus)

/-! ## The latest status -/

/-- The lines of a file that is read as text. -/
def fileLines (file : List UInt8) : List (List UInt8) := (ofFile file).splitOn LF

/-- The last of the lines with a status has this one, or it is 1 and no line has any. -/
def Latest (lines : List (List UInt8)) (ret : ℤ) : Prop :=
  (∃ pre line post status, lines = pre ++ line :: post ∧ lineStatus line = some status ∧
    (∀ l ∈ post, lineStatus l = none) ∧ ret = status.ret) ∨
  ((∀ l ∈ lines, lineStatus l = none) ∧ ret = 1)

/-- `GetStatus` ends, and reports the latest status. -/
def ReportsLatest (file : List UInt8) : Prop :=
  ∃ fuel call, getStatus fuel (some file) = some call ∧ Latest (fileLines file) call.ret

variable {lines : List (List UInt8)} {file : List UInt8} {ret : ℤ}

/-- The backward scan finds the latest status. -/
theorem latest_iff :
    Latest lines ret ↔ (reportStatus (lines.reverse.findSome? lineStatus)).ret = ret := by
  rcases hscan : lines.reverse.findSome? lineStatus with _ | status
  · have hnone : ∀ l ∈ lines, lineStatus l = none := by
      intro l hl
      exact List.findSome?_eq_none_iff.mp hscan l (List.mem_reverse.mpr hl)
    constructor
    · rintro (⟨pre, line, post, status, rfl, hline, -, -⟩ | ⟨-, rfl⟩)
      · rw [hnone line (by simp)] at hline
        cases hline
      · rfl
    · rintro rfl
      exact .inr ⟨hnone, rfl⟩
  · obtain ⟨post, line, pre, hsplit, hline, hpost⟩ := List.findSome?_eq_some_iff.mp hscan
    have hlines : lines = pre.reverse ++ line :: post.reverse := by
      rw [← List.reverse_reverse lines, hsplit]
      simp
    constructor
    · rintro (⟨pre', line', post', status', hlines', hline', hpost', rfl⟩ | ⟨hnone, -⟩)
      · -- the scan stops at that line, too
        have hscan' : lines.reverse.findSome? lineStatus = some status' := by
          rw [hlines', List.reverse_append, List.reverse_cons, List.append_assoc,
            List.singleton_append, List.findSome?_append, List.findSome?_cons, hline',
            List.findSome?_eq_none_iff.mpr fun l hl => hpost' l (List.mem_reverse.mp hl)]
          rfl
        rw [hscan] at hscan'
        rw [Option.some.inj hscan']
        rfl
      · rw [hnone line (by simp [hlines])] at hline
        cases hline
    · rintro rfl
      exact .inl ⟨pre.reverse, line, post.reverse, status, hlines, hline,
        fun l hl => hpost l (List.mem_reverse.mp hl), rfl⟩

/-- The latest status is reported if and only if every line fits the buffer, and the latest
status that is in front of the NULs of the lines is the latest one. The NUL that matters is the
first one in the last line with a status text: the text that is tested first stands in front of it,
or what is found instead, in front of it or in the lines before, has the same value. -/
theorem getStatus_iff (file : List UInt8) :
    ReportsLatest file ↔
      (∀ line ∈ fileLines file, line.length ≤ 511) ∧
        ∃ ret, Latest (fileLines file) ret ∧ Latest ((fileLines file).map cString) ret := by
  constructor
  · rintro ⟨fuel, call, hcall, hlatest⟩
    obtain ⟨content, hread, hreport⟩ := Option.bind_eq_some_iff.mp hcall
    obtain ⟨hfit, rfl⟩ := readLines_eq_some_iff.mp ⟨fuel, hread⟩
    refine ⟨hfit, call.ret, hlatest, latest_iff.mpr ?_⟩
    rw [← Option.some.inj hreport]
    rfl
  · rintro ⟨hfit, ret, hlatest, hcut⟩
    obtain ⟨fuel, hread⟩ := (@readLines_eq_some_iff 512 _ _).mpr ⟨hfit, rfl⟩
    refine ⟨fuel, _, Option.bind_eq_some_iff.mpr ⟨_, hread, rfl⟩, ?_⟩
    rw [← latest_iff.mp hcut] at hlatest
    exact hlatest

/-- A line of 512 characters. -/
def longLog : List UInt8 := List.replicate 512 97

theorem not_reportsLatest_longLog : ¬ ∀ file : List UInt8, ReportsLatest file := by
  intro h
  obtain ⟨fuel, call, hcall, -⟩ := h longLog
  obtain ⟨content, hread, -⟩ := Option.bind_eq_some_iff.mp hcall
  have hchar : ∀ b ∈ longLog, b = 97 := fun b hb => List.eq_of_mem_replicate hb
  have hlog : ofFile longLog = longLog :=
    ofFile_of_forall fun b hb => by rw [hchar b hb]; decide
  have hline : LF ∉ longLog := fun hmem => absurd (hchar LF hmem) (by decide)
  have hlong : longLog ∈ longLog.splitOn LF := by
    rw [List.splitOn_eq_singleton hline]
    exact List.mem_singleton_self longLog
  have hlen : 512 - 1 < longLog.length := by
    rw [longLog, List.length_replicate]
    decide
  rw [hlog, readLines_of_long hlong hlen] at hread
  cases hread

end RopOpenVpn

end Gendo.Client
