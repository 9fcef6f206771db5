import Gendo.Web.PriceIntegrity

/-!
# When a payment ends the service

`update_quota` sets `quota_expire` to the end date in the order, whatever the row held before, and
the end date was computed at the checkout. So a payment may shorten the service: of two orders the
one paid last decides, and a user who still has a long time loses it to a short product.
`expiry_run` says what every payment leaves, and that no payment of a run shortens the service
exactly when each finds no later date than that of its order.

The name of the product is pasted into the statement of `update_quota`. This is about orders whose
names have no quote and no backslash (`PlainName`); with another name the statement may do anything
to the users.
-/

namespace Gendo

open StepSystem Table Calendar

/-- `quota_expire` of a user. -/
def expireOf (db : Db) (uid : ℤ) : Option Time := (lookup User.id db.users uid).map User.quotaExpire

/-- The request is a message whose `update_quota` fails. -/
def quotaFails : WebRequest → Bool
  | .callback _ fails _ => fails.quota
  | _ => false

/-- A payment of an order with a plain name does not shorten the service of the buyer. -/
def ExpiryKept (s : Shop) (r : WebRequest) (t : Shop) : Prop :=
  ∀ o, credited s r = some o → PlainName o.proname → ∀ old new, expireOf s.db o.uid = some old →
    expireOf t.db o.uid = some new → old ≤ new

/-- A message that credits an order with a plain name does not find a later date than the end of the
order. -/
def EndsLater (s : Shop) (r : WebRequest) : Prop :=
  match r with
  | .callback c fails msg =>
    msg.verified = true → ¬(c = .alipayNotifyUrl ∧ msg.tradeStatus = some "WAIT_BUYER_PAY") →
      fails.quota = false → ∀ o, getBySerial s.db.orders msg.outTradeNo = some o → o.state = 0 →
        PlainName o.proname → ∀ old, expireOf s.db o.uid = some old → old ≤ s.db.timestamp o.proend
  | _ => True

/-- What a request does to `quota_expire`: crediting an order with a plain name sets it to the end
of the order, which its checkout computed, and nothing else changes it, unless an order with another
name is credited. -/
structure ExpirySet (base : List Order) (s : Shop) (r : WebRequest) (t : Shop) : Prop where
  fromCheckout : ∀ o, credited s r = some o → getBySerial base o.serial = none →
    ∃ p ∈ s.placed, p.serial = o.serial ∧ o.uid = p.uid ∧
      o.proend = s.db.keepDate (serviceEnd s.db.undefinedInt p.now p.post.svcDays)
  set : ∀ o, credited s r = some o → PlainName o.proname → quotaFails r = false →
    expireOf t.db o.uid = (expireOf s.db o.uid).map fun _ => s.db.timestamp o.proend
  failed : quotaFails r = true → ∀ uid, expireOf t.db uid = expireOf s.db uid
  others : ∀ uid, (∀ o, credited s r = some o → PlainName o.proname ∧ o.uid ≠ uid) →
    expireOf t.db uid = expireOf s.db uid

section Lemmas

variable {platform : Platform} {base : List Order} {s : Shop} {r : WebRequest} {db : Db}
  {o : Order} {uid : ℤ}

/-- `update_quota` sets the date of the buyer and of nobody else. -/
theorem expireOf_quotaOf (db : Db) (hplain : PlainName o.proname) (uid : ℤ) :
    expireOf (db.quotaOf o) uid =
      if uid = o.uid then (expireOf db uid).map fun _ => db.timestamp o.proend
      else expireOf db uid := by
  have hcol := column_write (g := User.quotaExpire) (h := fun _ => db.timestamp o.proend)
    (f := .setQuota db.timestamp o.quota) (fun _ => setQuota_id) (fun _ => setQuota_quotaExpire)
    db.users o.uid uid
  rw [Db.quotaOf, updateQuota_of_plain hplain]
  exact hcol

theorem expireOf_updateBonus (db : Db) (failed : Bool) (refeeId : ℤ) (bonus : ℚ) (uid : ℤ) :
    expireOf (db.updateBonus failed refeeId bonus) uid = expireOf db uid := by
  unfold Db.updateBonus
  split
  · rfl
  · split
    · rfl
    · exact column_write_of_same (addBonus_id bonus) (addBonus_quotaExpire bonus) db.users _ uid

/-- The dates after a call that credits an order. -/
theorem expireOf_orderTransaction {fails : Failures} {tx : Transaction}
    (h : (orderTransaction fails db tx).credited = some o)
    (hplain : fails.quota = false → PlainName o.proname) (uid : ℤ) :
    expireOf (orderTransaction fails db tx).db uid =
      if fails.quota = false ∧ uid = o.uid then
        (expireOf db uid).map fun _ => db.timestamp o.proend
      else expireOf db uid := by
  obtain ⟨hget, h0, hs⟩ := credited_orderTransaction_iff.mp h
  -- the write of the state touches no user
  have hupdate : ∀ uid, expireOf
      (db.update fails.state tx.serial tx.platform tx.platformSerial tx.status).2 uid =
        expireOf db uid := by
    intro uid
    unfold expireOf
    rw [update_users]
  have htimestamp :
      (db.update fails.state tx.serial tx.platform tx.platformSerial tx.status).2.timestamp =
        db.timestamp := by
    unfold Db.update
    split
    · cases fails.state <;> rfl
    · rfl
  unfold orderTransaction
  rw [hget]
  dsimp only
  rw [if_pos ⟨h0, hs⟩]
  dsimp only
  rw [expireOf_updateBonus]
  -- after the state comes the quota, and then a bonus, which no date depends on
  cases hquota : fails.quota with
  | true => simpa using hupdate uid
  | false =>
    rw [if_neg Bool.false_ne_true, expireOf_quotaOf _ (hplain hquota), hupdate, htimestamp]
    simp

theorem expireOf_handle {c : Callback} {fails : Failures} {msg : Message}
    (h : (handle c fails db msg).credited = some o)
    (hplain : fails.quota = false → PlainName o.proname) (uid : ℤ) :
    expireOf (handle c fails db msg).db uid =
      if fails.quota = false ∧ uid = o.uid then
        (expireOf db uid).map fun _ => db.timestamp o.proend
      else expireOf db uid := by
  revert h
  unfold handle
  cases index c msg with
  | none => exact nofun
  | some tx => exact fun h => expireOf_orderTransaction h hplain uid

/-- A request that credits nothing leaves the dates. -/
theorem expireOf_serve_of_not_credited (h : credited s r = none) (uid : ℤ) :
    expireOf (serve s r).db uid = expireOf s.db uid := by
  cases r with
  | buy post => rfl
  | checkout now rand failed =>
    have husers : (serve s (.checkout now rand failed)).db.users = s.db.users := by
      unfold serve checkout
      cases s.session.username with
      | none => rfl
      | some username => cases failed <;> rfl
    unfold expireOf
    rw [husers]
  | callback c fails msg =>
    unfold expireOf
    show (lookup User.id (handle c fails s.db msg).db.users uid).map _ = _
    rw [handle_users_of_not_credited h]

/-- What one request does to the dates. -/
theorem expirySet_serve (h : Traced platform base s) (r : WebRequest) :
    ExpirySet base s r (serve s r) := by
  obtain rfl := h.same
  cases hcredited : credited s r with
  | none =>
    have hsame := expireOf_serve_of_not_credited hcredited
    -- nothing is credited, and nothing is changed
    refine ⟨fun o ho => ?_, fun o ho => ?_, fun _ => hsame, fun uid _ => hsame uid⟩
    · rw [hcredited] at ho
      cases ho
    · rw [hcredited] at ho
      cases ho
  | some o =>
    cases r with
    | buy post => cases hcredited
    | checkout now rand failed => cases hcredited
    | callback c fails msg =>
      obtain ⟨-, hget, -, -⟩ := credited_handle_iff.mp hcredited
      refine ⟨fun o' ho' hbase => ?_, fun o' ho' hplain hq => ?_, fun hq uid => ?_,
        fun uid hne => ?_⟩
      · -- the end of the order is that of its checkout, as payments do not change it
        rw [hcredited, Option.some.injEq] at ho'
        subst ho'
        have hserial : o.serial = msg.outTradeNo := lookup_key hget
        obtain ⟨p, hp, hpo⟩ := exists_placed h (hserial ▸ hbase) hget
        refine ⟨p, lookup_mem hp, (lookup_key hp).trans hserial.symm, ?_, ?_⟩
        · exact (congrArg Order.uid hpo).symm
        · exact (congrArg Order.proend hpo).symm
      · rw [hcredited, Option.some.injEq] at ho'
        subst ho'
        exact (expireOf_handle hcredited (fun _ => hplain) o.uid).trans (if_pos ⟨hq, rfl⟩)
      · have hfails : ¬fails.quota = false := fun hok => Bool.false_ne_true (hok.symm.trans hq)
        refine (expireOf_handle hcredited (fun hok => absurd hok hfails) uid).trans (if_neg ?_)
        exact fun hok => hfails hok.1
      · obtain ⟨hplain, huid⟩ := hne o hcredited
        refine (expireOf_handle hcredited (fun _ => hplain) uid).trans (if_neg ?_)
        exact fun heq => huid heq.2.symm

/-- A payment after which the date is an earlier one. -/
theorem not_expiryKept {t : Shop} (uid : ℤ) (old new : Time)
    (hcredited : (credited s r).map Order.uid = some uid)
    (hplain : ∀ o ∈ credited s r, PlainName o.proname) (hold : expireOf s.db uid = some old)
    (hnew : expireOf t.db uid = some new) (hlt : new < old) : ¬ExpiryKept s r t := by
  intro hkept
  obtain ⟨o, ho, rfl⟩ := Option.map_eq_some_iff.mp hcredited
  exact absurd (hkept o ho (hplain o ho) old new hold hnew) (not_le.mpr hlt)

/-- One request: the service is not shortened exactly when the order ends later. -/
theorem expiryKept_serve_iff : ExpiryKept s r (serve s r) ↔ EndsLater s r := by
  cases r with
  | buy post => exact iff_of_true (fun o h => nomatch h) trivial
  | checkout now rand failed => exact iff_of_true (fun o h => nomatch h) trivial
  | callback c fails msg =>
    constructor
    · intro hkept hv hwait hq o hget h0 hplain old hold
      have hcredited : (handle c fails s.db msg).credited = some o :=
        credited_handle_iff.mpr ⟨hv, hget, h0, hwait⟩
      have hnew := expireOf_handle hcredited (fun _ => hplain) o.uid
      rw [if_pos ⟨hq, rfl⟩, hold] at hnew
      exact hkept o hcredited hplain old _ hold hnew
    · intro hlater o hcredited hplain old new hold hnew
      obtain ⟨hv, hget, h0, hwait⟩ := credited_handle_iff.mp hcredited
      have hset := (expireOf_handle hcredited (fun _ => hplain) o.uid).symm.trans hnew
      -- where the statement fails, the date stays
      by_cases hq : fails.quota = false
      · rw [if_pos ⟨hq, rfl⟩, hold] at hset
        cases hset
        exact hlater hv hwait hq o hget h0 hplain old hold
      · rw [if_neg fun h => hq h.1, hold] at hset
        exact (Option.some.inj hset).le

end Lemmas

/-- Whatever is bought, in whatever order it is paid, and whichever updates fail: every credited
order with a plain name sets the buyer's date to its own end and changes no other date, and no
payment of such an order shortens the service exactly when each finds no later date than the end of
its order. -/
theorem expiry_run (db : Db) (uid : ℤ) (username : String) (rs : List WebRequest) :
    Along (ExpirySet db.orders) (Shop.start db uid username)
        (runOf serve (Shop.start db uid username) rs) ∧
      (Along ExpiryKept (Shop.start db uid username)
          (runOf serve (Shop.start db uid username) rs) ↔
        Guarded EndsLater (Shop.start db uid username)
          (runOf serve (Shop.start db uid username) rs)) := by
  have hstart := traced_start db uid username
  have hrun := isRun_runOf serve (Shop.start db uid username) rs
  constructor
  · refine along_of_invariant (fun s r t (h : Traced db.toPlatform db.orders s) hstep => ?_)
      hstart hrun
    rw [hstep]
    exact ⟨expirySet_serve h r, traced_request h r⟩
  · refine along_iff_guarded (fun s r t (h : Traced db.toPlatform db.orders s) hstep hg => ?_)
      (fun s r t _ hstep hq => ?_) hstart hrun
    · rw [hstep]
      exact ⟨expiryKept_serve_iff.mpr hg, traced_request h r⟩
    · rw [hstep] at hq
      exact expiryKept_serve_iff.mp hq

/-! ## A year, and then a month -/

/-- `bob`, whose service has ended. -/
def lapsedDb : Db := ⟨keepingPlatform, [], [{ freeUser with quotaExpire := 1370044800 }]⟩

/-- The message that an order of `firstOfJune` is paid. -/
def paidMessage (rand : ℕ) (price : ℚ) : WebRequest :=
  .callback .alipayNotifyUrl ⟨false, false, false⟩
    ⟨true, generateTradeid firstOfJune 2 rand, "2013060100001000", some "TRADE_FINISHED", "VIP",
      price⟩

/-- `bob` buys a year and pays it, and then a month. -/
def yearThenMonth : List WebRequest :=
  [.buy ⟨some "4", some "VIP year", some "450", some "150"⟩, .checkout firstOfJune 1 false,
    paidMessage 1 150,
    .buy ⟨some "1", some "VIP month", some "30", some "15"⟩, .checkout firstOfJune 2 false,
    paidMessage 2 15]

/-- A payment may shorten the service: the month ends before the year that was paid. -/
theorem not_expiryKept_yearThenMonth :
    ¬Along ExpiryKept (Shop.start lapsedDb 2 "bob")
      (runOf serve (Shop.start lapsedDb 2 "bob") yearThenMonth) := by
  rintro ⟨-, -, -, -, -, hkept, -⟩
  -- 2014-09-02 before the payment of the month, 2013-07-02 after it
  exact not_expiryKept 2 1409616000 1372723200 (by decide +kernel) (by decide +kernel)
    (by decide +kernel) (by decide +kernel) (by decide) hkept

end Gendo
