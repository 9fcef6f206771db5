import Gendo.Web.Orders

/-!
# The payment callbacks

Alipay reports on a trade twice over: through the buyer's browser to `alipay_return_url` and by
itself to `alipay_notify_url`. Both controllers map the trade status to a number and hand it to
`order_transaction`, which is the same function in both. The price and the subject of the message
are fetched, and not used.

A field of a `Message` is what `$this->input` returns for it, after its filter. The replies to
the caller are left out.
-/

namespace Gendo

open Table

/-- The two controllers with a callback. -/
inductive Callback
  | alipayReturnUrl
  | alipayNotifyUrl
  deriving DecidableEq

/-- A callback of Alipay; `verified` is the result of `verifyReturn` or `verifyNotify`. -/
structure Message where
  verified : Bool
  outTradeNo : String
  tradeNo : String
  -- `none` for a field that is missing
  tradeStatus : Option String
  prodName : String
  prodPrice : ℚ

/-- The arguments of `order_transaction`. -/
structure Transaction where
  serial : String
  platform : String
  platformSerial : String
  status : ℕ

/-- The number for a trade status, `WAIT_BUYER_PAY` apart. -/
def statusCode (tradeStatus : Option String) : ℕ :=
  if tradeStatus = some "WAIT_SELLER_SEND_GOODS" then 1
  else if tradeStatus = some "WAIT_BUYER_CONFIRM_GOODS" then 2
  else if tradeStatus = some "TRADE_SUCCESS" then 3
  else if tradeStatus = some "TRADE_FINISHED" then 4
  else 5

/-- `index` of the two controllers: the call of `order_transaction`, if there is one. -/
def index (c : Callback) (msg : Message) : Option Transaction :=
  if msg.verified then
    match c with
    | .alipayReturnUrl =>
      some ⟨msg.outTradeNo, "alipay_sync", msg.tradeNo, statusCode msg.tradeStatus⟩
    | .alipayNotifyUrl =>
      -- only this controller knows the status of a trade that is not paid yet
      some ⟨msg.outTradeNo, "alipay_async", msg.tradeNo,
        if msg.tradeStatus = some "WAIT_BUYER_PAY" then 0 else statusCode msg.tradeStatus⟩
  else none

/-- Which of the `update` statements of a call fail. -/
structure Failures where
  state : Bool
  quota : Bool
  bonus : Bool

/-- What a call of `order_transaction` returns, for which row it ran `update_quota` and
`update_bonus`, and the tables it leaves. -/
structure Transacted where
  ret : ℤ
  credited : Option Order
  db : Db

/-- The arguments with which `order_transaction` calls `update_quota`. -/
def Order.quota (data : Order) : QuotaUpdate :=
  ⟨data.uid, data.proname, 10737418240, data.prostart, data.proend, data.proprice⟩

/-- `update_quota` as `order_transaction` calls it. -/
def Db.quotaOf (db : Db) (data : Order) : Db := db.updateQuota data.quota

/-- The bonus that `order_transaction` asks for. PHP multiplies doubles and writes 14 digits of the
product, which are all of it for a price in cents below 10^10. -/
def Order.bonus (data : Order) : ℚ := data.proprice * (15 / 100)

/-- `order_transaction`. -/
def orderTransaction (fails : Failures) (db : Db) (tx : Transaction) : Transacted :=
  match getBySerial db.orders tx.serial with
  | none => ⟨-1, none, db⟩
  | some data =>
    if data.state = 0 ∧ tx.status ≠ 0 then
      -- the value of `update` is ignored: a state that was not written is credited all the same
      let db := (db.update fails.state tx.serial tx.platform tx.platformSerial tx.status).2
      let db := if fails.quota then db else db.quotaOf data
      ⟨0, some data, db.updateBonus fails.bonus data.uid data.bonus⟩
    -- not paid before and not paid now
    else if data.state = 0 ∧ tx.status = 0 then ⟨0, none, db⟩
    -- paid before, and Alipay says that it is not
    else if data.state ≠ 0 ∧ tx.status = 0 then ⟨0, none, db⟩
    else
      ⟨0, none, (db.update fails.state tx.serial tx.platform tx.platformSerial tx.status).2⟩

/-- The order with this serial is there, and not paid. -/
def Unpaid (db : Db) (serial : String) : Prop :=
  ∃ data, getBySerial db.orders serial = some data ∧ data.state = 0

/-- A callback from start to end. -/
def handle (c : Callback) (fails : Failures) (db : Db) (msg : Message) : Transacted :=
  match index c msg with
  | none => ⟨0, none, db⟩
  | some tx => orderTransaction fails db tx

section Lemmas

variable {c : Callback} {msg : Message} {fails : Failures} {db : Db} {tx : Transaction}
  {data : Order}

@[simp]
theorem update_users (db : Db) (failed : Bool) (serial platform platformSerial : String)
    (status : ℕ) : (db.update failed serial platform platformSerial status).2.users = db.users := by
  unfold Db.update
  split <;> cases failed <;> rfl

/-- A call credits the order that it finds unpaid, if its status is not 0, and no other. -/
theorem credited_orderTransaction_iff :
    (orderTransaction fails db tx).credited = some data ↔
      getBySerial db.orders tx.serial = some data ∧ data.state = 0 ∧ tx.status ≠ 0 := by
  unfold orderTransaction
  cases hget : getBySerial db.orders tx.serial with
  | none => simp
  | some row =>
    by_cases h0 : row.state = 0 <;> by_cases hs : tx.status = 0 <;> simp [h0, hs]
    · rintro rfl
      exact h0
    · rintro rfl
      exact h0

/-- A call that credits nothing leaves the user table as it was. -/
theorem users_of_not_credited (h : (orderTransaction fails db tx).credited = none) :
    (orderTransaction fails db tx).db.users = db.users := by
  revert h
  unfold orderTransaction
  cases getBySerial db.orders tx.serial with
  | none => simp
  | some row => by_cases h0 : row.state = 0 <;> by_cases hs : tx.status = 0 <;> simp [h0, hs]

/-- With the status 0 nothing happens at all. -/
theorem orderTransaction_of_status_zero (h : tx.status = 0) :
    (orderTransaction fails db tx).credited = none ∧ (orderTransaction fails db tx).db = db := by
  unfold orderTransaction
  cases getBySerial db.orders tx.serial with
  | none => simp
  | some row => by_cases h0 : row.state = 0 <;> simp [h, h0]

/-- Only `WAIT_BUYER_PAY` has the number 0, and only in `alipay_notify_url`. -/
theorem statusCode_ne_zero (tradeStatus : Option String) : statusCode tradeStatus ≠ 0 := by
  unfold statusCode
  split_ifs <;> decide

/-- What `index` passes on of a verified message. -/
theorem index_of_verified (h : msg.verified = true) :
    ∃ tx, index c msg = some tx ∧ tx.serial = msg.outTradeNo ∧
      (tx.status = 0 ↔ c = .alipayNotifyUrl ∧ msg.tradeStatus = some "WAIT_BUYER_PAY") := by
  unfold index
  rw [if_pos h]
  cases c with
  | alipayReturnUrl => exact ⟨_, rfl, rfl, by simp [statusCode_ne_zero]⟩
  | alipayNotifyUrl => exact ⟨_, rfl, rfl, by simp [statusCode_ne_zero]⟩

/-- A message that is not verified does nothing. -/
theorem handle_of_not_verified (h : msg.verified ≠ true) :
    handle c fails db msg = ⟨0, none, db⟩ := by
  unfold handle index
  rw [if_neg h]

/-- Which messages credit an order. -/
theorem credited_handle_iff :
    (handle c fails db msg).credited = some data ↔
      msg.verified = true ∧ getBySerial db.orders msg.outTradeNo = some data ∧ data.state = 0 ∧
        ¬(c = .alipayNotifyUrl ∧ msg.tradeStatus = some "WAIT_BUYER_PAY") := by
  by_cases hv : msg.verified = true
  · -- a verified message is a call with the message's serial
    obtain ⟨tx, hindex, hserial, hstatus⟩ := index_of_verified (c := c) hv
    unfold handle
    rw [hindex]
    show (orderTransaction fails db tx).credited = some data ↔ _
    rw [credited_orderTransaction_iff, hserial, ne_eq, hstatus]
    exact (and_iff_right hv).symm
  · rw [handle_of_not_verified hv]
    exact iff_of_false (fun h => nomatch h) fun h => hv h.1

/-- A message that credits nothing leaves the user table as it was. -/
theorem handle_users_of_not_credited (h : (handle c fails db msg).credited = none) :
    (handle c fails db msg).db.users = db.users := by
  revert h
  unfold handle
  cases index c msg with
  | none => exact fun _ => rfl
  | some tx => exact users_of_not_credited

/-- A notification that waits for the buyer changes nothing. -/
theorem handle_of_waiting (hc : c = .alipayNotifyUrl)
    (hs : msg.tradeStatus = some "WAIT_BUYER_PAY") : (handle c fails db msg).db = db := by
  by_cases hv : msg.verified = true
  · obtain ⟨tx, hindex, -, hstatus⟩ := index_of_verified (c := c) hv
    unfold handle
    rw [hindex]
    exact (orderTransaction_of_status_zero (hstatus.mpr ⟨hc, hs⟩)).2
  · rw [handle_of_not_verified hv]

end Lemmas

/-! ## A month for `bob` -/

/-- `bob` ordered a month for 15, and has not paid. -/
def monthOrder : Order where
  serial := "201306010000020001"
  ordertime := 1370044800
  uid := 2
  username := "bob"
  proid := some "1"
  proname := some "VIP"
  proprice := 15
  prostart := 1370044800
  proend := 1372723200
  platform := "alipay"
  platformSerial := "0000"
  state := 0

/-- `bob`, a free user recruited by the user 1. -/
def freeUser : User where
  id := 2
  quotaName := some "free"
  quotaBytes := 5368709120
  quotaUsed := 0
  quotaStart := 1369958400
  quotaExpire := 1464652800
  fund := 0
  enabled := 1
  level := 0
  active := 1
  refered := 1
  bonus := 0

/-- Columns that keep what they get, a price as the number that its text begins with; neither a
float without an integer nor a name with a quote occurs with it. -/
def keepingPlatform : Platform where
  timestamp := id
  keepId := id
  keepName := id
  keepPrice price := (price.map Php.value).getD 0
  keepDate := id
  undefinedInt _ := 0
  injected _ _ users := users

/-- The tables with these two rows. -/
def oneOrderDb : Db := ⟨keepingPlatform, [monthOrder], [freeUser]⟩

end Gendo
