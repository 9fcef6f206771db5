import Gendo.Library.CLayout
import Gendo.Server.UserMsg

/-!
# The structures on the wire

The server sends the memory of a `user_login_ack_t` or a `server_list_t`, and the client reads it
as the same structure of the same header. The header fixes the fields, their order and their
sizes. It fixes the alignment only for the client, which packs to four bytes; the server is
compiled for whatever it is compiled for.

The offsets at which the handlers store a row (`userFields`, `serverFields`) are those of an
x86-64 server.
-/

namespace Gendo

open ByteMemory CLayout

/-- `int`, and an `enum`. -/
def intT : CType := .int 4

/-- `Int64`. -/
def int64T : CType := .int 8

/-- `user_t`. -/
def userT : CType := .struct <| .ofList
  [intT,         -- id
    .chars 32,   -- name
    .chars 32,   -- pwd
    intT,        -- active
    .chars 32,   -- reg_time
    .chars 32,   -- nick
    .chars 32,   -- email
    .chars 128,  -- note
    intT,        -- quota_cycle
    int64T,      -- quota_bytes
    int64T,      -- quota_used
    .chars 128,  -- quota_name
    .chars 32,   -- quota_expire
    int64T,      -- history_bytes
    intT,        -- enable
    intT,        -- level
    .chars 32,   -- quota_start
    intT,        -- hobby
    intT,        -- login_cnt
    intT]        -- type

/-- `user_login_ack_t`. -/
def userLoginAckT : CType := .struct <| .ofList [intT, userT]

/-- `server_t`. -/
def serverT : CType := .struct <| .ofList
  [intT,         -- id
    .chars 32,   -- ip
    .chars 32,   -- name
    .chars 64,   -- desc
    intT,        -- protocol
    intT,        -- latency
    intT,        -- cur_user
    intT,        -- max_user
    intT,        -- state
    .chars 128,  -- ssl_port
    intT,        -- type
    .chars 16]   -- location

/-- `MAX_SERVER_LIST`. -/
def MAX_SERVER_LIST : ℕ := 64

/-- `server_list_t`. -/
def serverListT : CType := .struct <| .ofList [intT, .array MAX_SERVER_LIST serverT]

/-- What the server is compiled for. -/
inductive Target
  | i386
  | x86_64
  deriving DecidableEq, Repr

/-- Linux aligns an `Int64` in a structure to four bytes on i386, and to eight on x86-64. -/
def Target.abi : Target → Abi
  | .i386 => .packed 4
  | .x86_64 => .packed 8

/-- The client is compiled with `#pragma pack(4)`. -/
def clientAbi : Abi := .packed 4

/-- `gas_db_user_info` stores to the fields of a `user_t`, behind `ret` in the reply. -/
theorem userFields_off :
    ((userLoginAckT.leaves (Target.abi .x86_64) 0).drop 1).map Leaf.off =
      userFields.map (ACK_USER_OFF + ·.off) := by
  decide

/-- `gas_db_server_info` stores to the fields of a `server_t`. -/
theorem serverFields_off (target : Target) :
    (serverT.leaves target.abi 0).map Leaf.off = serverFields.map (·.off) := by
  cases target with
  | i386 => decide
  | x86_64 => decide

/-- The handlers send as much as the structures are long. -/
theorem size_x86_64 :
    userT.size (Target.abi .x86_64) = USER_LEN ∧
      userLoginAckT.size (Target.abi .x86_64) = ACK_LEN.toNat ∧
      serverT.size (Target.abi .x86_64) = SERVER_LEN ∧
      serverListT.size (Target.abi .x86_64) = SERVER_LIST_LEN.toNat := by
  decide

/-- The client's sizes. -/
theorem size_client :
    userLoginAckT.size clientAbi = 540 ∧ serverListT.size clientAbi = 19204 := by
  decide

/-- There is no `Int64` in a server list, and four bytes are aligned alike everywhere. -/
theorem serverListT_agrees (target : Target) : serverListT.Agrees target.abi clientAbi := by
  refine agrees_of_sameAlign fun size hsize => ?_
  have hfour : size = 4 := by
    have hall : ∀ size ∈ serverListT.ints, size = 4 := by decide
    exact hall size hsize
  rw [hfour]
  cases target with
  | i386 => rfl
  | x86_64 => rfl

/-- An x86-64 server has four bytes of padding behind `ret`. -/
theorem not_userLoginAckT_agrees_x86_64 :
    ¬userLoginAckT.Agrees (Target.abi .x86_64) clientAbi := by
  intro h
  -- the first leaf of `user`, where the server and where the client has it
  have hid : (userLoginAckT.leaves (Target.abi .x86_64) 0)[1]? = some ⟨8, 4⟩ := by decide
  have hid' : (userLoginAckT.leaves clientAbi 0)[1]? = some ⟨4, 4⟩ := by decide
  have hsize : ∀ l ∈ userLoginAckT.leaves (Target.abi .x86_64) 0, 0 < l.size := by decide
  have hoff := off_eq_of_agrees h hid hid' (by decide) hsize
  cases hoff

/-- Both structures are read back by the client for every value exactly if the server is compiled
for i386; the server list is in any case. -/
theorem wireAgrees_iff (target : Target) :
    (userLoginAckT.Agrees target.abi clientAbi ∧ serverListT.Agrees target.abi clientAbi ↔
      target = .i386) ∧
    serverListT.Agrees target.abi clientAbi := by
  refine ⟨⟨fun h => ?_, ?_⟩, serverListT_agrees target⟩
  · cases target with
    | i386 => rfl
    | x86_64 => exact absurd h.1 not_userLoginAckT_agrees_x86_64
  · rintro rfl
    exact ⟨agrees_of_leaves_eq rfl, serverListT_agrees .i386⟩

/-- Not every server agrees with the client: an x86-64 one does not. -/
theorem not_wireAgrees_x86_64 :
    ¬∀ target : Target,
      userLoginAckT.Agrees target.abi clientAbi ∧ serverListT.Agrees target.abi clientAbi :=
  fun h => not_userLoginAckT_agrees_x86_64 (h .x86_64).1

end Gendo
