import Gendo.Library.Calendar
import Gendo.Library.StepSystem
import Gendo.Web.Alipay

/-!
# From the buy form to the order

`Service::buy` copies the posted fields of a product into the session, and `Service::checkout`
makes an order of what the session holds by then. Tabs share the session, so the order is that of
the last post in any of them. `Shop` is the session with the tables, and next to them the posts
and the checkouts so far; `Traced` says that every order was made of the post before its checkout,
and it holds in every run (`traced_request`).

The posted fields are what `$this->input` returns, after its filter.
-/

namespace Gendo

open StepSystem Table Calendar

/-- The fields of the buy form; `none` for a field that is missing. -/
structure Post where
  svcId : Option String
  svcName : Option String
  svcDays : Option String
  svcPrice : Option String

/-- The session of a client. -/
structure Session where
  id : ℤ
  -- `none` while nobody is logged in
  username : Option String
  svc : Post
  tradeId : Option String

/-- What `alipay_dualfun` asks Alipay to collect. -/
structure PayForm where
  outTradeNo : Option String
  subject : Option String
  price : Option String

/-- PHP's number for a form field; `FALSE` and `NULL` are 0. -/
def fieldNumber (field : Option String) : Php.Number := (field.map Php.number).getD (.int 0)

/-- The month of a service's end, for the days that were posted: an argument of `mktime`. -/
def endMonth (undefinedInt : Binary64 → ℤ) (now : DateTime) (days : Option String) : ℤ :=
  Php.toInt undefinedInt (Php.plus now.month (Php.divide (fieldNumber days) 30))

/-- The end of a service that is bought at `now`. -/
def serviceEnd (undefinedInt : Binary64 → ℤ) (now : DateTime) (days : Option String) : Time :=
  mktime 0 0 0 (endMonth undefinedInt now days) (now.day + 1) now.year

/-- `generate_tradeid`, with the value of `rand(1,9999)`. -/
def generateTradeid (now : DateTime) (uid : ℤ) (rand : ℕ) : String :=
  let date := Php.strPadLeft (toString now.year) 4 ++ Php.strPadLeft (toString now.month) 2 ++
    Php.strPadLeft (toString now.day) 2
  date ++ Php.strPadLeft (toString uid) 6 ++ Php.strPadLeft (toString rand) 4

/-- `Order_mdl::add`, with the value it returns. -/
def Db.add (db : Db) (failed : Bool) (now : DateTime) (serial : String) (uid : ℤ)
    (username : String) (proid proname proprice : Option String) (prostart proend : Time) :
    ℤ × Db :=
  if failed then (-1, db)
  else
    (0, { db with
      orders := db.orders ++ [{
        serial, ordertime := db.keepDate now.time, uid, username
        proid := db.keepId proid, proname := db.keepName proname
        proprice := db.keepPrice proprice
        prostart := db.keepDate prostart, proend := db.keepDate proend
        platform := "alipay", platformSerial := "0000", state := 0 }] })

/-- `alipay_dualfun`. -/
def alipayDualfun (session : Session) : PayForm :=
  ⟨session.tradeId, session.svc.svcName, session.svc.svcPrice⟩

/-- `buy`. -/
def buy (session : Session) (post : Post) : Session :=
  match session.username with
  | none => session
  | some _ => { session with svc := post }

/-- `checkout`: the session and the tables that it leaves, and the form that it answers with. -/
def checkout (session : Session) (db : Db) (now : DateTime) (rand : ℕ) (failed : Bool) :
    Session × Db × Option PayForm :=
  match session.username with
  | none => (session, db, none)
  | some username =>
    let tradeId := generateTradeid now session.id rand
    -- all columns come from the session, and none is looked up
    let (ret, db) := db.add failed now tradeId session.id username session.svc.svcId
      session.svc.svcName session.svc.svcPrice now.time
      (serviceEnd db.undefinedInt now session.svc.svcDays)
    -- `redirect` ends the request
    if ret ≠ 0 then (session, db, none)
    else
      let session := { session with tradeId := some tradeId }
      (session, db, some (alipayDualfun session))

/-- A checkout that made an order, and the fields that were posted last before it. -/
structure Placed where
  post : Post
  now : DateTime
  rand : ℕ
  uid : ℤ
  username : String

/-- The serial that the checkout gave its order. -/
def Placed.serial (p : Placed) : String := generateTradeid p.now p.uid p.rand

/-- The order that the checkout makes of the posted fields. -/
def Placed.order (platform : Platform) (p : Placed) : Order where
  serial := p.serial
  ordertime := platform.keepDate p.now.time
  uid := p.uid
  username := p.username
  proid := platform.keepId p.post.svcId
  proname := platform.keepName p.post.svcName
  proprice := platform.keepPrice p.post.svcPrice
  prostart := platform.keepDate p.now.time
  proend := platform.keepDate (serviceEnd platform.undefinedInt p.now p.post.svcDays)
  platform := "alipay"
  platformSerial := "0000"
  state := 0

/-- The session and the tables, with what was posted last and the checkouts so far. -/
structure Shop where
  session : Session
  db : Db
  posted : Post
  placed : List Placed

/-- A request of the client, or a message of Alipay. -/
inductive WebRequest
  | buy (post : Post)
  | checkout (now : DateTime) (rand : ℕ) (failed : Bool)
  | callback (c : Callback) (fails : Failures) (msg : Message)

/-- The shop after a request. -/
def serve (s : Shop) : WebRequest → Shop
  | .buy post =>
    { s with
      session := buy s.session post
      posted := if s.session.username.isSome then post else s.posted }
  | .checkout now rand failed =>
    let (session, db, form) := checkout s.session s.db now rand failed
    { s with
      session, db
      placed := match s.session.username, form with
        | some username, some _ => s.placed ++ [⟨s.posted, now, rand, s.session.id, username⟩]
        | _, _ => s.placed }
  | .callback c fails msg => { s with db := (handle c fails s.db msg).db }

/-- The order that a request credits. -/
def credited (s : Shop) : WebRequest → Option Order
  | .callback c fails msg => (handle c fails s.db msg).credited
  | _ => none

/-- A client who has just logged in, with nothing in the session but the login. -/
def Shop.start (db : Db) (uid : ℤ) (username : String) : Shop where
  session := ⟨uid, some username, ⟨none, none, none, none⟩, none⟩
  db
  posted := ⟨none, none, none, none⟩
  placed := []

/-- The columns of an order that a payment does not change. -/
def Order.core (o : Order) : Order := { o with platform := "", platformSerial := "", state := 0 }

/-- The session holds the last post, and the orders are those of `base` and of the checkouts. -/
structure Traced (platform : Platform) (base : List Order) (s : Shop) : Prop where
  same : s.db.toPlatform = platform
  session : s.session.svc = s.posted
  orders : s.db.orders.map Order.core =
    (base ++ s.placed.map (Placed.order platform)).map Order.core

section Lemmas

variable {platform : Platform} {base : List Order} {s : Shop} {serial : String}

/-- A payment changes no other columns of an order. -/
theorem update_orders_core (db : Db) (failed : Bool) (serial platform platformSerial : String)
    (status : ℕ) :
    (db.update failed serial platform platformSerial status).2.orders.map Order.core =
      db.orders.map Order.core := by
  have hcore : ∀ o : Order, (o.setState platform platformSerial status).core = o.core :=
    fun _ => rfl
  unfold Db.update
  split
  · -- the state and the platform are not among the columns of `core`
    cases failed with
    | true => rfl
    | false => exact map_write Order.core hcore
  · rfl

/-- No statement changes the platform. -/
theorem handle_platform (c : Callback) (fails : Failures) (db : Db) (msg : Message) :
    (handle c fails db msg).db.toPlatform = db.toPlatform := by
  -- each of the three updates writes to a table
  have hupdate : ∀ (db : Db) failed serial platform platformSerial status,
      (db.update failed serial platform platformSerial status).2.toPlatform = db.toPlatform := by
    intro db failed serial platform platformSerial status
    unfold Db.update
    split
    · cases failed <;> rfl
    · rfl
  have hquota : ∀ (db : Db) q, (db.updateQuota q).toPlatform = db.toPlatform := by
    intro db q
    unfold Db.updateQuota
    split <;> rfl
  have hbonus : ∀ (db : Db) failed refeeId bonus,
      (db.updateBonus failed refeeId bonus).toPlatform = db.toPlatform := by
    intro db failed refeeId bonus
    unfold Db.updateBonus
    split
    · rfl
    · split <;> rfl
  unfold handle orderTransaction
  split
  · rfl
  · split
    · rfl
    · split_ifs
      · rw [hbonus, hupdate]
      · rw [hbonus, Db.quotaOf, hquota, hupdate]
      · rfl
      · rfl
      · exact hupdate ..

theorem updateBonus_orders (db : Db) (failed : Bool) (refeeId : ℤ) (bonus : ℚ) :
    (db.updateBonus failed refeeId bonus).orders = db.orders := by
  unfold Db.updateBonus
  split
  · rfl
  · split <;> rfl

/-- Nor does a whole call. -/
theorem orderTransaction_orders_core (fails : Failures) (db : Db) (tx : Transaction) :
    (orderTransaction fails db tx).db.orders.map Order.core = db.orders.map Order.core := by
  unfold orderTransaction
  split
  · rfl
  · split_ifs
    · rw [updateBonus_orders]
      exact update_orders_core ..
    · rw [updateBonus_orders, Db.quotaOf, updateQuota_orders]
      exact update_orders_core ..
    · rfl
    · rfl
    · exact update_orders_core ..

theorem handle_orders_core (c : Callback) (fails : Failures) (db : Db) (msg : Message) :
    (handle c fails db msg).db.orders.map Order.core = db.orders.map Order.core := by
  unfold handle
  split
  · rfl
  · exact orderTransaction_orders_core ..

/-- A checkout whose order is inserted. -/
theorem serve_checkout {username : String} (huser : s.session.username = some username)
    (now : DateTime) (rand : ℕ) :
    (serve s (.checkout now rand false)).session.svc = s.session.svc ∧
      (serve s (.checkout now rand false)).db.orders =
        s.db.orders ++
          [Placed.order s.db.toPlatform ⟨s.session.svc, now, rand, s.session.id, username⟩] ∧
      (serve s (.checkout now rand false)).placed =
        s.placed ++ [⟨s.posted, now, rand, s.session.id, username⟩] := by
  simp [serve, checkout, huser, Db.add, Placed.order, Placed.serial]

/-- Every request leaves the orders traced. -/
theorem traced_request (h : Traced platform base s) (r : WebRequest) :
    Traced platform base (serve s r) := by
  cases r with
  | buy post =>
    -- the session and the last post change together
    refine ⟨h.same, ?_, h.orders⟩
    show (buy s.session post).svc = if s.session.username.isSome then post else s.posted
    unfold buy
    cases s.session.username with
    | none => exact h.session
    | some username => rfl
  | checkout now rand failed =>
    cases huser : s.session.username with
    | none =>
      unfold serve checkout
      rw [huser]
      exact h
    | some username =>
      cases failed with
      | true =>
        unfold serve checkout
        rw [huser]
        exact h
      | false =>
        obtain ⟨hsvc, horders, hplaced⟩ := serve_checkout huser now rand
        -- the new order is made of the session, and the session is the last post
        have hpost := hsvc.trans h.session
        have hsame : (serve s (.checkout now rand false)).db.toPlatform = s.db.toPlatform := by
          unfold serve checkout
          rw [huser]
          rfl
        refine ⟨hsame.trans h.same, hpost, ?_⟩
        rw [horders, hplaced, List.map_append, h.orders, h.session, h.same]
        simp
  | callback c fails msg =>
    exact ⟨(handle_platform c fails s.db msg).trans h.same, h.session,
      (handle_orders_core c fails s.db msg).trans h.orders⟩

theorem traced_start (db : Db) (uid : ℤ) (username : String) :
    Traced db.toPlatform db.orders (Shop.start db uid username) :=
  ⟨rfl, rfl, by simp [Shop.start]⟩

/-- An order that was not there before is that of the first checkout with its serial. -/
theorem getBySerial_core (h : Traced platform base s) (hbase : getBySerial base serial = none) :
    (getBySerial s.db.orders serial).map Order.core =
      (lookup Placed.serial s.placed serial).map fun p => (p.order platform).core := by
  have hserial : ∀ o : Order, o.core.serial = o.serial := fun _ => rfl
  have hplaced : ∀ p : Placed, (p.order platform).core.serial = p.serial := fun _ => rfl
  calc (getBySerial s.db.orders serial).map Order.core
      = lookup Order.serial (s.db.orders.map Order.core) serial := map_lookup _ _ hserial _ _
    _ = (lookup Order.serial (base ++ s.placed.map (Placed.order platform)) serial).map
          Order.core := by
        rw [h.orders, map_lookup _ _ hserial]
    _ = (lookup Order.serial (s.placed.map (Placed.order platform)) serial).map Order.core := by
        rw [lookup_append]
        unfold getBySerial at hbase
        rw [hbase, Option.none_or]
    _ = (lookup Placed.serial s.placed serial).map fun p => (p.order platform).core := by
        rw [map_lookup _ _ hserial, map_lookup _ _ hplaced, List.map_map]
        rfl

/-- So such an order was made by a checkout. -/
theorem exists_placed {o : Order} (h : Traced platform base s)
    (hbase : getBySerial base serial = none) (hget : getBySerial s.db.orders serial = some o) :
    ∃ p, lookup Placed.serial s.placed serial = some p ∧ (p.order platform).core = o.core := by
  have hcore := getBySerial_core h hbase
  rw [hget] at hcore
  exact Option.map_eq_some_iff.mp hcore.symm

/-- What the form asks for is the price of the order that was just made. -/
theorem price_of_form {session session' : Session} {db db' : Db} {now : DateTime} {rand : ℕ}
    {failed : Bool} {form : PayForm}
    (h : checkout session db now rand failed = (session', db', some form)) :
    ∃ o, db'.orders = db.orders ++ [o] ∧ form.outTradeNo = some o.serial ∧
      o.proprice = db.keepPrice form.price := by
  revert h
  unfold checkout
  cases session.username with
  | none => exact nofun
  | some username =>
    cases failed with
    | true => exact nofun
    | false =>
      intro h
      simp only [Db.add, Bool.false_eq_true, ↓reduceIte, ne_eq, not_true_eq_false, Prod.mk.injEq,
        Option.some.injEq] at h
      obtain ⟨-, rfl, rfl⟩ := h
      exact ⟨_, rfl, rfl, rfl⟩

end Lemmas

end Gendo
