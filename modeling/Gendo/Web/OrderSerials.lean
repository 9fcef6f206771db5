import Gendo.Library.DecimalText
import Gendo.Web.Checkout

/-!
# Serials of orders

`generate_tradeid` makes the serial of an order of the date, the id of the user and a random number
from 1 to 9999, and nothing looks whether there is an order with this serial already.
`ordersIdentified_iff` says after which visits of the site every order can be read and written by
its serial: exactly if no user had the same random number for two orders of one day.

An id has as many digits as it needs, and the serial has no separators. As long as years have four
digits, it can be taken apart nevertheless (`alike_iff`).
-/

namespace Gendo

open Calendar
open DecimalText
open Table

/-! ## Visits -/

/-- A request to the site from any client: a checkout with the client's session and what `rand`
returns, or a message of Alipay. -/
inductive Visit
  | checkout (session : Session) (now : DateTime) (rand : {r : ℕ // 1 ≤ r ∧ r ≤ 9999})
    (failed : Bool)
  | callback (c : Callback) (fails : Failures) (msg : Message)

/-- The tables after a visit. -/
def visit (db : Db) : Visit → Db
  | .checkout session now rand failed => (checkout session db now rand failed).2.1
  | .callback c fails msg => (handle c fails db msg).db

/-- The order that a visit makes, if it makes one. -/
def placedBy : Visit → List Placed
  | .checkout session now rand failed =>
    match session.username, failed with
    | some username, false => [⟨session.svc, now, rand, session.id, username⟩]
    | _, _ => []
  | .callback .. => []

/-- The orders that visits make. -/
def placedIn (visits : List Visit) : List Placed := visits.flatMap placedBy

/-! ## What a serial is for -/

/-- By the serial of this order, `get_by_serial`, `update` and `order_transaction` read and change
this order only. -/
structure Identified (db : Db) (i : ℕ) (o : Order) : Prop where
  getBySerial : getBySerial db.orders o.serial = some o
  update : ∀ failed platform platformSerial status,
    db.update failed o.serial platform platformSerial status =
      (0, if failed then db
        else { db with orders := db.orders.set i (o.setState platform platformSerial status) })
  transaction : ∀ fails tx, tx.serial = o.serial →
    (orderTransaction fails db tx).ret = 0 ∧
      (orderTransaction fails db tx).credited =
        (if o.state = 0 ∧ tx.status ≠ 0 then some o else none) ∧
      (orderTransaction fails db tx).db.orders =
        if tx.status ≠ 0 ∧ fails.state = false then
          db.orders.set i (o.setState tx.platform tx.platformSerial tx.status)
        else db.orders

/-- Different orders have different serials, and each is identified by its own. -/
structure OrdersIdentified (db : Db) : Prop where
  nodup : (db.orders.map Order.serial).Nodup
  identified : ∀ i (h : i < db.orders.length), Identified db i db.orders[i]

/-- The same day. -/
def SameDay (t u : DateTime) : Prop := t.year = u.year ∧ t.month = u.month ∧ t.day = u.day

/-- The id of a user in a serial. -/
def uidText (uid : ℤ) : String := Php.strPadLeft (toString uid) 6

/-- Two orders of one user on one day, with one random number; or, if the years have not the same
number of digits, with a date and an id that run together to the same text. -/
def Placed.Alike (p q : Placed) : Prop :=
  p.rand = q.rand ∧
    (p.uid = q.uid ∧ SameDay p.now q.now ∨
      (dateText p.now).length ≠ (dateText q.now).length ∧
        dateText p.now ++ uidText p.uid = dateText q.now ++ uidText q.uid)

/-! ## Serials -/

section Serials

variable {p q : Placed}

theorem serial_eq (p : Placed) :
    p.serial = dateText p.now ++ uidText p.uid ++ padded p.rand 4 := rfl

/-- Two orders have the same serial exactly if they are alike. -/
theorem serial_eq_iff (hp : p.rand ≤ 9999) (hq : q.rand ≤ 9999) :
    p.serial = q.serial ↔ p.Alike q := by
  rw [serial_eq, serial_eq, append_padded_inj (by decide) (by omega) (by omega), and_comm]
  refine and_congr_right fun _ => ⟨fun h => ?_, ?_⟩
  · -- nothing separates the date from the id but the width of the date
    by_cases hlen : (dateText p.now).length = (dateText q.now).length
    · obtain ⟨hdate, huid⟩ := append_inj h hlen
      exact .inl ⟨strPadLeft_int_inj.1 huid, dateText_inj.1 hdate⟩
    · exact .inr ⟨hlen, h⟩
  · rintro (⟨huid, hday⟩ | ⟨-, h⟩)
    · rw [dateText_inj.2 hday, huid]
    · exact h

/-- In years of four digits, only orders of one user on one day are alike. -/
theorem alike_iff (hp : p.now.year < 10 ^ 4) (hq : q.now.year < 10 ^ 4) :
    p.Alike q ↔ p.rand = q.rand ∧ p.uid = q.uid ∧ SameDay p.now q.now := by
  have hlen := (length_dateText hp).trans (length_dateText hq).symm
  simp [Placed.Alike, hlen]

end Serials

/-! ## Orders by their serials -/

/-- A visit adds the order that it makes, and leaves the serials of the others. -/
theorem visit_serials (db : Db) (v : Visit) :
    (visit db v).orders.map Order.serial =
      db.orders.map Order.serial ++ (placedBy v).map Placed.serial := by
  rcases v with ⟨session, now, rand, failed⟩ | ⟨c, fails, msg⟩
  · rcases huser : session.username with _ | username
    · simp [visit, checkout, placedBy, huser]
    · cases failed <;> simp [visit, checkout, placedBy, huser, Db.add, Placed.serial]
  · -- a message of Alipay changes the state of an order at most
    have hcore := congrArg (List.map Order.serial) (handle_orders_core c fails db msg)
    rw [List.map_map, List.map_map] at hcore
    rw [placedBy, List.map_nil, List.append_nil]
    exact hcore

/-- The serials after visits are those of the orders that they make. -/
theorem foldl_visit_serials (db : Db) (visits : List Visit) :
    (visits.foldl visit db).orders.map Order.serial =
      db.orders.map Order.serial ++ (placedIn visits).map Placed.serial := by
  induction visits generalizing db with
  | nil => simp [placedIn]
  | cons v visits ih =>
    rw [List.foldl_cons, ih, visit_serials, placedIn, placedIn, List.flatMap_cons, List.map_append,
      List.append_assoc]

/-- A call of `order_transaction` for an order that is there: what it credits, and that nothing but
`update` changes the orders. -/
theorem orderTransaction_of_found {db : Db} {tx : Transaction} {data : Order} (fails : Failures)
    (hget : getBySerial db.orders tx.serial = some data) :
    (orderTransaction fails db tx).ret = 0 ∧
      (orderTransaction fails db tx).credited =
        (if data.state = 0 ∧ tx.status ≠ 0 then some data else none) ∧
      (orderTransaction fails db tx).db.orders = if tx.status = 0 then db.orders else
        (db.update fails.state tx.serial tx.platform tx.platformSerial tx.status).2.orders := by
  have hquota : ∀ db : Db, (if fails.quota then db else db.quotaOf data).orders = db.orders := by
    intro db
    split_ifs
    · rfl
    · exact updateQuota_orders db _
  -- the order is credited only in its first state, but `update` is called in any state
  rw [orderTransaction, hget]
  by_cases hstate : data.state = 0 <;> by_cases hstatus : tx.status = 0 <;>
    simp [hstate, hstatus, updateBonus_orders, hquota]

/-- Where serials are unique, they identify the orders. -/
theorem identified_of_nodup {db : Db} (h : (db.orders.map Order.serial).Nodup) {i : ℕ}
    (hi : i < db.orders.length) : Identified db i db.orders[i] := by
  have hget : getBySerial db.orders db.orders[i].serial = some db.orders[i] := lookup_getElem h hi
  have hupdate : ∀ failed platform platformSerial status,
      db.update failed db.orders[i].serial platform platformSerial status =
        (0, if failed then db
          else { db with orders :=
            db.orders.set i (db.orders[i].setState platform platformSerial status) }) := by
    intro failed platform platformSerial status
    -- one order has the serial, so that `update` does not take it for a fake one
    have hexist : isExist db.orders db.orders[i].serial = true :=
      decide_eq_true (countP_getElem h hi)
    rw [Db.update, if_pos hexist, Db.writeState, write_getElem h hi]
  refine ⟨hget, hupdate, fun fails tx htx => ?_⟩
  obtain ⟨hret, hcredited, horders⟩ := orderTransaction_of_found fails (htx ▸ hget)
  refine ⟨hret, hcredited, ?_⟩
  rw [horders, htx, hupdate]
  by_cases hstatus : tx.status = 0 <;> cases fails.state <;> simp [hstatus]

/-! ## Visits and serials -/

/-- The random numbers of the orders that visits make. -/
theorem rand_le_of_placedIn {visits : List Visit} {p : Placed} (hp : p ∈ placedIn visits) :
    p.rand ≤ 9999 := by
  obtain ⟨v, -, hp⟩ := List.mem_flatMap.1 hp
  rcases v with ⟨session, now, rand, failed⟩ | ⟨c, fails, msg⟩
  · have hrand := rand.2.2
    rcases huser : session.username with _ | username
    · simp [placedBy, huser] at hp
    · cases failed <;> simp [placedBy, huser] at hp
      rw [hp]
      exact hrand
  · simp [placedBy] at hp

/-- After visits to a site without orders, every order is identified by its serial exactly if no two
of them are alike. -/
theorem ordersIdentified_iff (platform : Platform) (users : List User) (visits : List Visit) :
    OrdersIdentified (visits.foldl visit ⟨platform, [], users⟩) ↔
      (placedIn visits).Pairwise fun p q => ¬p.Alike q := by
  have hserials : (visits.foldl visit ⟨platform, [], users⟩).orders.map Order.serial =
      (placedIn visits).map Placed.serial := foldl_visit_serials ⟨platform, [], users⟩ visits
  have halike : ((placedIn visits).map Placed.serial).Nodup ↔
      (placedIn visits).Pairwise fun p q => ¬p.Alike q := by
    rw [List.Nodup, List.pairwise_map]
    -- what `rand` returned has at most the four digits of its place
    exact List.Pairwise.iff_of_mem fun hp hq =>
      not_congr (serial_eq_iff (rand_le_of_placedIn hp) (rand_le_of_placedIn hq))
  rw [← halike, ← hserials]
  exact ⟨OrdersIdentified.nodup, fun h => ⟨h, fun i hi => identified_of_nodup h hi⟩⟩

/-- A client with a login, who has the same random number in the morning and in the
evening of one day. -/
def twoCheckouts : List Visit :=
  let session : Session := ⟨1, some "user", ⟨none, none, none, none⟩, none⟩
  let morning : DateTime := { DateTime.newYearsEve with hour := 9, hour_lt := by decide }
  let evening : DateTime := .newYearsEve
  [.checkout session morning ⟨7, by decide⟩ false, .checkout session evening ⟨7, by decide⟩ false]

/-- Two orders of one user on one day have the same serial. -/
theorem not_ordersIdentified : ¬∀ (platform : Platform) (users : List User)
    (visits : List Visit), OrdersIdentified (visits.foldl visit ⟨platform, [], users⟩) := by
  intro h
  have hnodup := (h keepingPlatform [] twoCheckouts).nodup
  rw [foldl_visit_serials] at hnodup
  exact (List.nodup_cons.1 hnodup).1 (List.mem_singleton.2 rfl)

end Gendo
