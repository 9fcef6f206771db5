import Gendo.Library.StepSystem
import Gendo.Web.Alipay

/-!
# Only a payment activates service

Messages of Alipay arrive one after another, on either callback, with any trade status. Four
statuses say that the buyer has paid. The catch-all branch of both controllers hands every other
status on as 5, which `order_transaction` takes for a payment: a closed trade, an unknown or a
missing status credits an unpaid order, and so does `WAIT_BUYER_PAY` on the return page, which
does not know it. `paidOnly_iff` shows that nothing else goes wrong.
-/

namespace Gendo

open StepSystem

/-- The statuses of a trade that the buyer has paid. -/
def paidStatuses : List String :=
  ["WAIT_SELLER_SEND_GOODS", "WAIT_BUYER_CONFIRM_GOODS", "TRADE_SUCCESS", "TRADE_FINISHED"]

/-- The message says that the trade is paid. -/
def Message.Paid (msg : Message) : Prop := ∃ s ∈ paidStatuses, msg.tradeStatus = some s

/-- A message on one of the callbacks, with the failures that its call meets. -/
structure Delivery where
  callback : Callback
  msg : Message
  fails : Failures

/-- What the delivery does. -/
def Delivery.transacted (d : Delivery) (db : Db) : Transacted :=
  handle d.callback d.fails db d.msg

/-- The tables after the delivery. -/
def deliver (db : Db) (d : Delivery) : Db := (d.transacted db).db

/-- Any later message that says the order is paid credits it. -/
def Creditable (db : Db) (serial : String) : Prop :=
  ∀ d : Delivery, d.msg.verified = true → d.msg.outTradeNo = serial → d.msg.Paid →
    (d.transacted db).credited ≠ none

/-- The order is credited only by a message that says it is paid; any other leaves the user table
as it was, and an unpaid order creditable. -/
def PaidOnly (db : Db) (d : Delivery) (db' : Db) : Prop :=
  ((d.transacted db).credited ≠ none → d.msg.Paid) ∧
    (Unpaid db d.msg.outTradeNo → ¬d.msg.Paid →
      db'.users = db.users ∧ Creditable db' d.msg.outTradeNo)

/-- A message about an unpaid order says that it is paid, or it is a notification that waits for
the buyer. -/
def StatusKnown (db : Db) (d : Delivery) : Prop :=
  d.msg.verified = true → Unpaid db d.msg.outTradeNo →
    d.msg.Paid ∨ d.callback = .alipayNotifyUrl ∧ d.msg.tradeStatus = some "WAIT_BUYER_PAY"

variable {db : Db} {d : Delivery} {serial : String}

theorem not_paid_of_waiting (h : d.msg.tradeStatus = some "WAIT_BUYER_PAY") : ¬d.msg.Paid := by
  rintro ⟨s, hs, heq⟩
  rw [h, Option.some.injEq] at heq
  subst heq
  revert hs
  decide

/-- An unpaid order is credited by every message about it, a waiting notification apart. -/
theorem credited_of_unpaid (hv : d.msg.verified = true) (hunpaid : Unpaid db d.msg.outTradeNo)
    (hwait : ¬(d.callback = .alipayNotifyUrl ∧ d.msg.tradeStatus = some "WAIT_BUYER_PAY")) :
    (d.transacted db).credited ≠ none := by
  obtain ⟨data, hget, h0⟩ := hunpaid
  have hcredited : (d.transacted db).credited = some data :=
    credited_handle_iff.mpr ⟨hv, hget, h0, hwait⟩
  simp [hcredited]

theorem creditable_of_unpaid (hunpaid : Unpaid db serial) : Creditable db serial := by
  intro d hv hserial hpaid
  subst hserial
  exact credited_of_unpaid hv hunpaid fun h => not_paid_of_waiting h.2 hpaid

/-- One message: only a payment activates service exactly when the status is a known one. -/
theorem paidOnly_deliver_iff : PaidOnly db d (deliver db d) ↔ StatusKnown db d := by
  constructor
  · -- an order that is credited was credited by a payment
    intro h hv hunpaid
    by_cases hwait : d.callback = .alipayNotifyUrl ∧ d.msg.tradeStatus = some "WAIT_BUYER_PAY"
    · exact .inr hwait
    · exact .inl (h.1 (credited_of_unpaid hv hunpaid hwait))
  · intro h
    refine ⟨fun hcredited => ?_, fun hunpaid hnot => ?_⟩
    · -- a message that credits found the order unpaid and is no waiting notification
      obtain ⟨data, hdata⟩ := Option.ne_none_iff_exists'.mp hcredited
      obtain ⟨hv, hget, h0, hwait⟩ := credited_handle_iff.mp hdata
      exact (h hv ⟨data, hget, h0⟩).resolve_right hwait
    · -- the message is not verified, or it waits for the buyer: the tables stay as they are
      have hdb : deliver db d = db := by
        by_cases hv : d.msg.verified = true
        · have hwait := (h hv hunpaid).resolve_left hnot
          exact handle_of_waiting hwait.1 hwait.2
        · exact congrArg Transacted.db (handle_of_not_verified hv)
      rw [hdb]
      exact ⟨rfl, creditable_of_unpaid hunpaid⟩

/-- However many messages arrive, in whatever order and with whatever statuses: only payments
activate service exactly when no unpaid order gets a message with another status, a notification
that waits for the buyer apart. -/
theorem paidOnly_iff (db : Db) (ds : List Delivery) :
    Along PaidOnly db (runOf deliver db ds) ↔
      Guarded StatusKnown db (runOf deliver db ds) := by
  -- what one message does needs no invariant
  refine along_iff_guarded (fun s d t (_ : True) hstep hg => ?_) (fun s d t _ hstep hq => ?_)
    trivial (isRun_runOf deliver db ds)
  · rw [hstep]
    exact ⟨paidOnly_deliver_iff.mpr hg, trivial⟩
  · rw [hstep] at hq
    exact paidOnly_deliver_iff.mp hq

/-! ## A closed trade -/

/-- The trade times out without a payment, and Alipay closes it. -/
def closedTrade : Delivery where
  callback := .alipayNotifyUrl
  msg := ⟨true, "201306010000020001", "2013060100001000", some "TRADE_CLOSED", "VIP", 15⟩
  fails := ⟨false, false, false⟩

/-- Not only a payment activates service: a trade that was closed unpaid does. -/
theorem not_paidOnly_closedTrade :
    ¬Along PaidOnly oneOrderDb (runOf deliver oneOrderDb [closedTrade]) := by
  rintro ⟨⟨honly, -⟩, -⟩
  have hcredited : (closedTrade.transacted oneOrderDb).credited = some monthOrder := rfl
  obtain ⟨s, hs, heq⟩ := honly (by simp [hcredited])
  revert hs heq
  simp only [closedTrade, Option.some.injEq]
  rintro hs rfl
  revert hs
  decide

end Gendo
