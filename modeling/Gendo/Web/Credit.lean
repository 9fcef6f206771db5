import Gendo.Library.StepSystem
import Gendo.Web.Alipay
import Mathlib.Algebra.BigOperators.Group.List.Basic
import Mathlib.Algebra.Order.Ring.Rat
import Mathlib.Tactic.Ring

/-!
# Crediting an order at most once

Every callback is a request of its own, so the calls of `order_transaction` interleave between
their database statements. `stmt` is one statement of one call, and a run of `next` is any
interleaving of any number of calls, in which any `update` may fail. Between the read that finds
an order unpaid and the write of its state another call can find it unpaid too; and since nobody
looks at the result of that write, so can a call that comes after a write that failed.

`creditedOnce` shows that these two are all: in a run in which no order is found unpaid while
another call is between its own read and its write, nor after such a write was lost, every order
is credited at most once. `balanced_run` says that the history `quotas` and `bonuses` is what the
user table has gained, unless a name in it ended the quotes of its statement, and
`alone_eq_orderTransaction` that a call without others is `order_transaction`.
-/

namespace Gendo

open StepSystem Table

/-- The database statements of a call after `get_by_serial`. -/
inductive Stage
  | isExist
  | writeState
  | updateQuota
  | readRefer
  | writeBonus (referId : ℤ)

/-- Where a call is, and the row `$data` that it works with. -/
inductive Pc
  | getBySerial
  | at (stage : Stage) (data : Order)
  | done

/-- The tables, with the history of the payments. -/
structure Site where
  db : Db
  -- the orders whose price was added to a fund, and those whose bonus was added to a referrer's
  quotas : List Order
  bonuses : List (Order × ℤ)
  -- the orders that were found unpaid and whose state was not written
  lost : List String

/-- The tables and the calls. -/
structure Calls (ι : Type*) where
  site : Site
  pc : ι → Pc

/-- The call has read its order. -/
def Pc.started : Pc → Bool
  | .getBySerial => false
  | _ => true

/-- Where a call goes on once `Order_mdl::update` is over. -/
def afterUpdate (data : Order) : Pc := if data.state = 0 then .at .updateQuota data else .done

/-- The history of a call that was not able to write the state. -/
def Site.lose (s : Site) (data : Order) : Site :=
  if data.state = 0 then { s with lost := data.serial :: s.lost } else s

/-- One statement of a call; `failed` is whether it fails, if it is an `update`. -/
def stmt (tx : Transaction) (failed : Bool) (s : Site) : Pc → Pc × Site
  | .getBySerial =>
    match getBySerial s.db.orders tx.serial with
    | none => (.done, s)
    -- paid or not, an order is updated unless the status is 0
    | some data => (if tx.status = 0 then .done else .at .isExist data, s)
  | .at .isExist data =>
    if isExist s.db.orders tx.serial then (.at .writeState data, s)
    else (afterUpdate data, s.lose data)
  | .at .writeState data =>
    if failed then (afterUpdate data, s.lose data)
    else
      (afterUpdate data,
        { s with db := s.db.writeState tx.serial tx.platform tx.platformSerial tx.status })
  | .at .updateQuota data =>
    (.at .readRefer data,
      if failed then s else { s with db := s.db.quotaOf data, quotas := data :: s.quotas })
  | .at .readRefer data =>
    match bonusRefer s.db.users data.uid data.bonus with
    | none => (.done, s)
    | some referId => (.at (.writeBonus referId) data, s)
  | .at (.writeBonus referId) data =>
    (.done,
      if failed then s
      else
        { s with
          db := s.db.writeBonus referId data.bonus, bonuses := (data, referId) :: s.bonuses })
  | .done => (.done, s)

/-- What one statement may do, whether it fails or not: it takes a call from a place to another,
and leaves these tables. -/
inductive StmtStep (tx : Transaction) (s : Site) : Pc → Pc → Site → Prop
  | skip : StmtStep tx s .getBySerial .done s
  | find {data : Order} (hget : getBySerial s.db.orders tx.serial = some data)
      (hstatus : tx.status ≠ 0) : StmtStep tx s .getBySerial (.at .isExist data) s
  | exist {data : Order} : StmtStep tx s (.at .isExist data) (.at .writeState data) s
  -- there is no such order, or the write of its state fails
  | lose {stage : Stage} {data : Order} (hstage : stage = .isExist ∨ stage = .writeState) :
      StmtStep tx s (.at stage data) (afterUpdate data) (s.lose data)
  | write {data : Order} : StmtStep tx s (.at .writeState data) (afterUpdate data)
      { s with db := s.db.writeState tx.serial tx.platform tx.platformSerial tx.status }
  | noQuota {data : Order} : StmtStep tx s (.at .updateQuota data) (.at .readRefer data) s
  | quota {data : Order} : StmtStep tx s (.at .updateQuota data) (.at .readRefer data)
      { s with db := s.db.quotaOf data, quotas := data :: s.quotas }
  | noRefer {data : Order} : StmtStep tx s (.at .readRefer data) .done s
  | refer {data : Order} (referId : ℤ) :
      StmtStep tx s (.at .readRefer data) (.at (.writeBonus referId) data) s
  | noBonus {data : Order} {referId : ℤ} : StmtStep tx s (.at (.writeBonus referId) data) .done s
  | bonus {data : Order} {referId : ℤ} : StmtStep tx s (.at (.writeBonus referId) data) .done
      { s with db := s.db.writeBonus referId data.bonus, bonuses := (data, referId) :: s.bonuses }
  | done : StmtStep tx s .done .done s

/-- Every statement is one of these. -/
theorem stmtStep (tx : Transaction) (failed : Bool) (s : Site) (p : Pc) :
    StmtStep tx s p (stmt tx failed s p).1 (stmt tx failed s p).2 := by
  cases p with
  | getBySerial =>
    simp only [stmt]
    cases hget : getBySerial s.db.orders tx.serial with
    | none => exact .skip
    | some data =>
      by_cases hstatus : tx.status = 0
      · simp only [hstatus, if_true]
        exact .skip
      · simp only [hstatus, if_false]
        exact .find hget hstatus
  | «at» stage data =>
    cases stage with
    | isExist =>
      simp only [stmt]
      split
      · exact .exist
      · exact .lose (.inl rfl)
    | writeState =>
      simp only [stmt]
      split
      · exact .lose (.inr rfl)
      · exact .write
    | updateQuota =>
      simp only [stmt]
      split
      · exact .noQuota
      · exact .quota
    | readRefer =>
      simp only [stmt]
      split
      · exact .noRefer
      · exact .refer _
    | writeBonus referId =>
      simp only [stmt]
      split
      · exact .noBonus
      · exact .bonus
  | done => exact .done

/-- One statement of the call `a.1`, which fails if `a.2`. -/
def next {ι : Type*} [DecidableEq ι] (tx : ι → Transaction) (s : Calls ι) (a : ι × Bool) :
    Calls ι where
  site := (stmt (tx a.1) a.2 s.site (s.pc a.1)).2
  pc := Function.update s.pc a.1 (stmt (tx a.1) a.2 s.site (s.pc a.1)).1

/-! ## The life of one order -/

/-- How far the call at `p` is in crediting the order, if it found it unpaid. -/
def Pc.crediting (serial : String) : Pc → Option Stage
  | .at stage data => if data.serial = serial ∧ data.state = 0 then some stage else none
  | _ => none

/-- The call has found the order unpaid, and is not over with the write of its state. -/
def Pc.InFlight (serial : String) (p : Pc) : Prop :=
  p.crediting serial = some .isExist ∨ p.crediting serial = some .writeState

/-- The order is not unpaid any more, or its state was lost. -/
def Settled (s : Site) (serial : String) : Prop :=
  (∀ data, getBySerial s.db.orders serial = some data → data.state ≠ 0) ∨ serial ∈ s.lost

/-- How often the order's price was added to the buyer's fund. -/
def quotaCount (s : Site) (serial : String) : ℕ :=
  s.quotas.countP fun data => data.serial = serial

/-- How often the order's bonus was added to the referrer's. -/
def bonusCount (s : Site) (serial : String) : ℕ :=
  s.bonuses.countP fun entry => entry.1.serial = serial

/-- `Order_mdl::update` is over. -/
def Stage.AfterUpdate : Stage → Prop
  | .isExist | .writeState => False
  | _ => True

/-- A call works with a row of its own serial, has a status that is not 0, and comes past the
update only with an order that it found unpaid. -/
def Pc.Ok (tx : Transaction) : Pc → Prop
  | .at stage data =>
    data.serial = tx.serial ∧ tx.status ≠ 0 ∧ (stage.AfterUpdate → data.state = 0)
  | _ => True

/-- What a statement of a call at `p` may do to its progress with an order. -/
inductive StageStep (s t : Site) (serial : String) (p : Pc) : Option Stage → Option Stage → Prop
  | other (hq : quotaCount t serial = quotaCount s serial)
      (hb : bonusCount t serial = bonusCount s serial) : StageStep s t serial p none none
  | find {data : Order} (hp : p = .getBySerial)
      (hdata : getBySerial s.db.orders serial = some data) (hunpaid : data.state = 0)
      (hs : t = s) : StageStep s t serial p none (some .isExist)
  | exist (hs : t = s) : StageStep s t serial p (some .isExist) (some .writeState)
  | settle {stage : Stage} (hstage : stage = .isExist ∨ stage = .writeState)
      (hsettled : Settled t serial) (hq : quotaCount t serial = quotaCount s serial)
      (hb : bonusCount t serial = bonusCount s serial) :
      StageStep s t serial p (some stage) (some .updateQuota)
  | quota (hq : quotaCount t serial ≤ quotaCount s serial + 1)
      (hb : bonusCount t serial = bonusCount s serial) :
      StageStep s t serial p (some .updateQuota) (some .readRefer)
  | refer (referId : ℤ) (hs : t = s) :
      StageStep s t serial p (some .readRefer) (some (.writeBonus referId))
  | noRefer (hs : t = s) : StageStep s t serial p (some .readRefer) none
  | bonus {referId : ℤ} (hq : quotaCount t serial = quotaCount s serial)
      (hb : bonusCount t serial ≤ bonusCount s serial + 1) :
      StageStep s t serial p (some (.writeBonus referId)) none

section Lemmas

variable {tx : Transaction} {s t : Site} {p q : Pc} {serial : String} {data : Order} {stage : Stage}

@[simp]
theorem quotaCount_lose : quotaCount (s.lose data) serial = quotaCount s serial := by
  unfold Site.lose
  split <;> rfl

@[simp]
theorem bonusCount_lose : bonusCount (s.lose data) serial = bonusCount s serial := by
  unfold Site.lose
  split <;> rfl

@[simp]
theorem lose_db : (s.lose data).db = s.db := by
  unfold Site.lose
  split <;> rfl

theorem crediting_at (h : data.serial = serial ∧ data.state = 0) :
    (Pc.at stage data).crediting serial = some stage :=
  if_pos h

theorem crediting_at_of_not (h : ¬(data.serial = serial ∧ data.state = 0)) :
    (Pc.at stage data).crediting serial = none :=
  if_neg h

theorem afterUpdate_of_unpaid (hunpaid : data.state = 0) :
    afterUpdate data = .at .updateQuota data :=
  if_pos hunpaid

/-- A call that is over with the update, and did not find the order unpaid, is over. -/
theorem crediting_afterUpdate_of_not (h : ¬(data.serial = serial ∧ data.state = 0)) :
    (afterUpdate data).crediting serial = none := by
  unfold afterUpdate
  split
  · exact crediting_at_of_not h
  · rfl

theorem ok_afterUpdate (h : (Pc.at stage data).Ok tx) : (afterUpdate data).Ok tx := by
  unfold afterUpdate
  split
  case isTrue hunpaid => exact ⟨h.1, h.2.1, fun _ => hunpaid⟩
  case isFalse => trivial

/-- A call keeps working with the row that it read. -/
theorem Pc.Ok.step (h : p.Ok tx) (hstep : StmtStep tx s p q t) : q.Ok tx := by
  cases hstep with
  | skip | noRefer | noBonus | bonus | done => trivial
  | find hget hstatus => exact ⟨lookup_key hget, hstatus, False.elim⟩
  | exist | refer referId => exact h
  | lose hstage => exact ok_afterUpdate h
  | write => exact ok_afterUpdate h
  | noQuota | quota => exact ⟨h.1, h.2.1, fun _ => h.2.2 trivial⟩

/-- A call that credits an order has its serial, and a status that is not 0. -/
theorem ok_of_crediting (hok : p.Ok tx) (h : p.crediting serial ≠ none) :
    tx.serial = serial ∧ tx.status ≠ 0 := by
  cases p with
  | getBySerial => exact absurd rfl h
  | «at» stage data =>
    by_cases hdata : data.serial = serial ∧ data.state = 0
    · exact ⟨hok.1.symm.trans hdata.1, hok.2.1⟩
    · exact absurd (crediting_at_of_not hdata) h
  | done => exact absurd rfl h

/-- A state that is written is not 0, so a settled order stays settled. -/
theorem settled_writeState (hstatus : tx.status ≠ 0) (h : Settled s serial) :
    Settled { s with db := s.db.writeState tx.serial tx.platform tx.platformSerial tx.status }
      serial := by
  rcases h with hpaid | hlost
  · -- the row is either one that was just written, or one that was paid before
    refine .inl fun data hdata => ?_
    rw [getBySerial_writeState] at hdata
    split at hdata
    · obtain ⟨row, -, rfl⟩ := Option.map_eq_some_iff.mp hdata
      exact hstatus
    · exact hpaid data hdata
  · exact .inr hlost

/-- The order of the call is settled once its state is written. -/
theorem settled_of_written (hstatus : tx.status ≠ 0) :
    Settled { s with db := s.db.writeState tx.serial tx.platform tx.platformSerial tx.status }
      tx.serial := by
  refine .inl fun data hdata => ?_
  rw [getBySerial_writeState, if_pos rfl] at hdata
  obtain ⟨row, -, rfl⟩ := Option.map_eq_some_iff.mp hdata
  exact hstatus

theorem settled_lose (h : Settled s serial) : Settled (s.lose data) serial := by
  unfold Site.lose
  split
  · exact h.imp id (List.mem_cons_of_mem _)
  · exact h

theorem settled_of_lost (hserial : data.serial = serial) (hunpaid : data.state = 0) :
    Settled (s.lose data) serial := by
  unfold Site.lose
  rw [if_pos hunpaid]
  exact .inr (hserial ▸ List.mem_cons_self)

/-- A settled order stays settled, whatever the statement. -/
theorem Settled.step (h : Settled s serial) (hok : p.Ok tx) (hstep : StmtStep tx s p q t) :
    Settled t serial := by
  cases hstep with
  | lose hstage => exact settled_lose h
  | write => exact settled_writeState hok.2.1 h
  | quota =>
    rw [Settled, Db.quotaOf, updateQuota_orders]
    exact h
  | _ => exact h

/-- A statement of a call that works with another order, or found this one paid. -/
theorem stageStep_of_not (hok : (Pc.at stage data).Ok tx)
    (hdata : ¬(data.serial = serial ∧ data.state = 0))
    (hstep : StmtStep tx s (.at stage data) q t) :
    StageStep s t serial (.at stage data) none (q.crediting serial) := by
  -- past the update, a call works with an order that it found unpaid
  have hother : stage.AfterUpdate → ¬data.serial = serial := by
    intro hafter hserial
    exact hdata ⟨hserial, hok.2.2 hafter⟩
  cases hstep with
  | exist | noQuota | refer =>
    rw [crediting_at_of_not hdata]
    exact .other rfl rfl
  | lose hstage =>
    rw [crediting_afterUpdate_of_not hdata]
    exact .other quotaCount_lose bonusCount_lose
  | write =>
    rw [crediting_afterUpdate_of_not hdata]
    exact .other rfl rfl
  | quota =>
    rw [crediting_at_of_not hdata]
    exact .other (List.countP_cons_of_neg (by simpa using hother trivial)) rfl
  | noRefer | noBonus => exact .other rfl rfl
  | bonus => exact .other rfl (List.countP_cons_of_neg (by simpa using hother trivial))

/-- A statement of a call that found the order unpaid. -/
theorem stageStep_of_unpaid (hok : (Pc.at stage data).Ok tx)
    (hdata : data.serial = serial ∧ data.state = 0)
    (hstep : StmtStep tx s (.at stage data) q t) :
    StageStep s t serial (.at stage data) (some stage) (q.crediting serial) := by
  cases hstep with
  | exist =>
    rw [crediting_at hdata]
    exact .exist rfl
  | lose hstage =>
    rw [afterUpdate_of_unpaid hdata.2, crediting_at hdata]
    exact .settle hstage (settled_of_lost hdata.1 hdata.2) quotaCount_lose bonusCount_lose
  | write =>
    have hserial : tx.serial = serial := hok.1.symm.trans hdata.1
    rw [afterUpdate_of_unpaid hdata.2, crediting_at hdata]
    exact .settle (.inr rfl) (hserial ▸ settled_of_written hok.2.1) rfl rfl
  | noQuota =>
    rw [crediting_at hdata]
    exact .quota (Nat.le_succ _) rfl
  | quota =>
    rw [crediting_at hdata]
    exact .quota (List.countP_cons_of_pos (by simpa using hdata.1)).le rfl
  | noRefer => exact .noRefer rfl
  | refer referId =>
    rw [crediting_at hdata]
    exact .refer referId rfl
  | noBonus => exact .bonus rfl (Nat.le_succ _)
  | bonus => exact .bonus rfl (List.countP_cons_of_pos (by simpa using hdata.1)).le

/-- What one statement of a call does to one order. -/
theorem stageStep (hok : p.Ok tx) (serial : String) (hstep : StmtStep tx s p q t) :
    StageStep s t serial p (p.crediting serial) (q.crediting serial) := by
  cases p with
  | getBySerial =>
    cases hstep with
    | skip => exact .other rfl rfl
    | @find data hget hstatus =>
      by_cases hdata : data.serial = serial ∧ data.state = 0
      · have hserial : tx.serial = serial := (lookup_key hget).symm.trans hdata.1
        rw [crediting_at hdata]
        exact .find rfl (hserial ▸ hget) hdata.2 rfl
      · rw [crediting_at_of_not hdata]
        exact .other rfl rfl
  | «at» stage data =>
    by_cases hdata : data.serial = serial ∧ data.state = 0
    · rw [crediting_at hdata]
      exact stageStep_of_unpaid hok hdata hstep
    · rw [crediting_at_of_not hdata]
      exact stageStep_of_not hok hdata hstep
  | done =>
    cases hstep with
    | done => exact .other rfl rfl

end Lemmas

/-! ## Any number of calls -/

/-- The price is not added to the buyer's fund yet. -/
def Stage.BeforeQuota : Stage → Prop
  | .isExist | .writeState | .updateQuota => True
  | _ => False

/-- What holds of an order while a call credits it and is at this stage. -/
structure StageOk (s : Site) (serial : String) (stage : Stage) : Prop where
  settled : stage.AfterUpdate → Settled s serial
  quota : stage.BeforeQuota → quotaCount s serial = 0
  bonus : bonusCount s serial = 0

variable {ι : Type*} {s t : Calls ι} {serial : String}

/-- What every reachable state knows of an order: one call at most credits it, and once it is
credited it is settled. -/
structure OnceInv (s : Calls ι) (serial : String) : Prop where
  one : ∀ c c', (s.pc c).crediting serial ≠ none → (s.pc c').crediting serial ≠ none → c = c'
  stages : ∀ c stage, (s.pc c).crediting serial = some stage → StageOk s.site serial stage
  history : 0 < quotaCount s.site serial ∨ 0 < bonusCount s.site serial → Settled s.site serial
  quota : quotaCount s.site serial ≤ 1
  bonus : bonusCount s.site serial ≤ 1

/-- Every order was credited at most once so far. -/
def CreditedOnce (s : Calls ι) : Prop :=
  ∀ serial, quotaCount s.site serial ≤ 1 ∧ bonusCount s.site serial ≤ 1

/-- A call finds an order unpaid only if no other call is between its own read and write of the
order's state, and no such write was lost. -/
def FoundFirst (tx : ι → Transaction) (s : Calls ι) (a : ι × Bool) : Prop :=
  s.pc a.1 = .getBySerial → (tx a.1).status ≠ 0 →
    ∀ data, getBySerial s.site.db.orders (tx a.1).serial = some data → data.state = 0 →
      data.serial ∉ s.site.lost ∧ ∀ c, ¬(s.pc c).InFlight data.serial

/-- Calls that are about to start, on tables in any state. -/
def Calls.start (ι : Type*) (db : Db) : Calls ι := ⟨⟨db, [], [], []⟩, fun _ => .getBySerial⟩

/-- An unpaid order that no call is about to write was not credited, and no call credits it. -/
theorem OnceInv.untouched (h : OnceInv s serial) (hlost : serial ∉ s.site.lost)
    (hflight : ∀ c, ¬(s.pc c).InFlight serial) {data : Order}
    (hdata : getBySerial s.site.db.orders serial = some data) (hunpaid : data.state = 0) :
    (∀ c, (s.pc c).crediting serial = none) ∧ quotaCount s.site serial = 0 ∧
      bonusCount s.site serial = 0 := by
  have hopen : ¬Settled s.site serial := by
    rintro (hpaid | hmem)
    · exact hpaid data hdata hunpaid
    · exact hlost hmem
  -- an order that is not settled is in flight or untouched
  refine ⟨fun c => ?_, ?_, ?_⟩
  · by_contra hne
    obtain ⟨stage, hstage⟩ := Option.ne_none_iff_exists'.mp hne
    cases stage with
    | isExist => exact hflight c (.inl hstage)
    | writeState => exact hflight c (.inr hstage)
    | updateQuota => exact hopen ((h.stages c _ hstage).settled trivial)
    | readRefer => exact hopen ((h.stages c _ hstage).settled trivial)
    | writeBonus referId => exact hopen ((h.stages c _ hstage).settled trivial)
  · exact Nat.eq_zero_of_not_pos fun hpos => hopen (h.history (.inl hpos))
  · exact Nat.eq_zero_of_not_pos fun hpos => hopen (h.history (.inr hpos))

/-- The invariant where only the call `c` can be crediting the order. -/
theorem OnceInv.of_only (c : ι) (honly : ∀ c', (t.pc c').crediting serial ≠ none → c' = c)
    (hstage : ∀ stage, (t.pc c).crediting serial = some stage → StageOk t.site serial stage)
    (hhistory : 0 < quotaCount t.site serial ∨ 0 < bonusCount t.site serial →
      Settled t.site serial)
    (hquota : quotaCount t.site serial ≤ 1) (hbonus : bonusCount t.site serial ≤ 1) :
    OnceInv t serial where
  one c₁ c₂ h₁ h₂ := (honly c₁ h₁).trans (honly c₂ h₂).symm
  stages c' stage h := by
    have heq : c' = c := honly c' (by simp [h])
    exact hstage stage (heq ▸ h)
  history := hhistory
  quota := hquota
  bonus := hbonus

/-- The invariant where only the call `c` can be crediting the order, and is at this stage. -/
theorem OnceInv.of_stage {c : ι} {stage : Stage}
    (honly : ∀ c', (t.pc c').crediting serial ≠ none → c' = c)
    (hnew : (t.pc c).crediting serial = some stage) (hok : StageOk t.site serial stage)
    (hhistory : 0 < quotaCount t.site serial ∨ 0 < bonusCount t.site serial →
      Settled t.site serial)
    (hquota : quotaCount t.site serial ≤ 1) : OnceInv t serial := by
  refine .of_only c honly (fun stage' hstage => ?_) hhistory hquota
    (hok.bonus.trans_le zero_le_one)
  rw [hnew, Option.some.injEq] at hstage
  exact hstage ▸ hok

/-- The invariant where only the call `c` can have credited the order, and is through. -/
theorem OnceInv.of_done {c : ι} (honly : ∀ c', (t.pc c').crediting serial ≠ none → c' = c)
    (hnew : (t.pc c).crediting serial = none) (hsettled : Settled t.site serial)
    (hquota : quotaCount t.site serial ≤ 1) (hbonus : bonusCount t.site serial ≤ 1) :
    OnceInv t serial := by
  refine .of_only c honly (fun stage hstage => ?_) (fun _ => hsettled) hquota hbonus
  rw [hnew] at hstage
  cases hstage

/-- The invariant where the same calls credit the order as before. -/
theorem OnceInv.of_same (h : OnceInv s serial)
    (hsame : ∀ c, (t.pc c).crediting serial = (s.pc c).crediting serial)
    (hkeep : Settled s.site serial → Settled t.site serial)
    (hq : quotaCount t.site serial = quotaCount s.site serial)
    (hb : bonusCount t.site serial = bonusCount s.site serial) : OnceInv t serial := by
  refine ⟨fun c c' hc hc' => ?_, fun c stage hc => ?_, fun hpos => ?_, ?_, ?_⟩
  · rw [hsame] at hc hc'
    exact h.one c c' hc hc'
  · rw [hsame] at hc
    have hok := h.stages c stage hc
    exact ⟨fun hafter => hkeep (hok.settled hafter), fun hbef => hq.trans (hok.quota hbef),
      hb.trans hok.bonus⟩
  · rw [hq, hb] at hpos
    exact hkeep (h.history hpos)
  · exact hq.trans_le h.quota
  · exact hb.trans_le h.bonus

/-- One statement of one call keeps the invariant of every order. -/
theorem OnceInv.step (h : OnceInv s serial) {c : ι} (hothers : ∀ c', c' ≠ c → t.pc c' = s.pc c')
    (hkeep : Settled s.site serial → Settled t.site serial)
    (hfirst : s.pc c = .getBySerial → (t.pc c).crediting serial ≠ none →
      ∀ data, getBySerial s.site.db.orders serial = some data → data.state = 0 →
        serial ∉ s.site.lost ∧ ∀ c', ¬(s.pc c').InFlight serial)
    (hstep : StageStep s.site t.site serial (s.pc c) ((s.pc c).crediting serial)
      ((t.pc c).crediting serial)) : OnceInv t serial := by
  -- a call that credits the order in `t` is `c`, or it did so before
  have hbefore : ∀ c', (t.pc c').crediting serial ≠ none →
      c' = c ∨ (s.pc c').crediting serial ≠ none := by
    intro c' hc'
    by_cases heq : c' = c
    · exact .inl heq
    · rw [hothers c' heq] at hc'
      exact .inr hc'
  generalize hold : (s.pc c).crediting serial = old at hstep
  generalize hnew : (t.pc c).crediting serial = new at hstep hfirst
  -- while `c` credits the order, no other call does
  have honly : old ≠ none → ∀ c', (t.pc c').crediting serial ≠ none → c' = c := by
    intro hsome c' hc'
    rcases hbefore c' hc' with heq | hcred
    · exact heq
    · exact h.one c' c hcred (hold ▸ hsome)
  cases hstep with
  -- `c` does not credit the order, so the same calls do as before
  | other hq hb =>
    refine h.of_same (fun c' => ?_) hkeep hq hb
    by_cases heq : c' = c
    · rw [heq, hold, hnew]
    · rw [hothers c' heq]
  | find hp hdata hunpaid hs =>
    -- `c` is the first to find the order unpaid
    obtain ⟨hlost, hflight⟩ := hfirst hp (by simp) _ hdata hunpaid
    obtain ⟨hnone, hq, hb⟩ := h.untouched hlost hflight hdata hunpaid
    rw [← hs] at hq hb
    refine .of_stage (fun c' hc' => ?_) hnew ⟨False.elim, fun _ => hq, hb⟩ (fun hpos => ?_)
      (by omega)
    · exact (hbefore c' hc').resolve_right fun hne => hne (hnone c')
    · omega
  | exist hs =>
    have hok := h.stages c _ hold
    rw [← hs] at hok
    have hquota := hok.quota trivial
    have hbonus := hok.bonus
    refine .of_stage (honly (by simp)) hnew ⟨False.elim, fun _ => hquota, hbonus⟩
      (fun hpos => ?_) (hquota.trans_le zero_le_one)
    omega
  | settle hstage hsettled hq hb =>
    have hok := h.stages c _ hold
    have hquota : quotaCount s.site serial = 0 := by
      rcases hstage with rfl | rfl
      · exact hok.quota trivial
      · exact hok.quota trivial
    exact .of_stage (honly (by simp)) hnew
      ⟨fun _ => hsettled, fun _ => hq.trans hquota, hb.trans hok.bonus⟩ (fun _ => hsettled)
      (hq.trans_le h.quota)
  | quota hq hb =>
    have hok := h.stages c _ hold
    have hquota := hok.quota trivial
    have hsettled := hkeep (hok.settled trivial)
    exact .of_stage (honly (by simp)) hnew ⟨fun _ => hsettled, False.elim, hb.trans hok.bonus⟩
      (fun _ => hsettled) (by omega)
  | refer referId hs =>
    have hok := h.stages c _ hold
    have hsettled := hkeep (hok.settled trivial)
    rw [← hs] at hok
    exact .of_stage (honly (by simp)) hnew ⟨fun _ => hsettled, False.elim, hok.bonus⟩
      (fun _ => hsettled) (hs ▸ h.quota)
  | noRefer hs =>
    have hsettled := hkeep ((h.stages c _ hold).settled trivial)
    exact .of_done (honly (by simp)) hnew hsettled (hs ▸ h.quota) (hs ▸ h.bonus)
  | bonus hq hb =>
    have hok := h.stages c _ hold
    have hbonus := hok.bonus
    exact .of_done (honly (by simp)) hnew (hkeep (hok.settled trivial)) (hq.trans_le h.quota)
      (by omega)

/-- No order is credited before the calls start. -/
theorem onceInv_start (db : Db) (serial : String) : OnceInv (Calls.start ι db) serial where
  one c c' h _ := absurd rfl h
  stages c stage h := nomatch h
  history h := by rcases h with h | h <;> exact absurd h (lt_irrefl 0)
  quota := Nat.zero_le 1
  bonus := Nat.zero_le 1

/-- However the calls interleave and whichever updates fail: as long as no order is found unpaid
while another call is about to write its state, or after such a write was lost, every order is
credited at most once. -/
theorem creditedOnce [DecidableEq ι] (tx : ι → Transaction) (db : Db) (as : List (ι × Bool))
    (hfound : Guarded (FoundFirst tx) (Calls.start ι db) (runOf (next tx) (Calls.start ι db) as)) :
    Always CreditedOnce (Calls.start ι db) (runOf (next tx) (Calls.start ι db) as) := by
  let Inv (s : Calls ι) : Prop := (∀ c, (s.pc c).Ok (tx c)) ∧ ∀ serial, OnceInv s serial
  have hinit : Inv (Calls.start ι db) := ⟨fun _ => trivial, onceInv_start db⟩
  -- one statement of one call: the others stay where they are
  have hkeep : ∀ s a t, Inv s → FoundFirst tx s a → t = next tx s a → Inv t := by
    rintro s ⟨c, failed⟩ t ⟨hok, honce⟩ hg rfl
    have hself : (next tx s (c, failed)).pc c = (stmt (tx c) failed s.site (s.pc c)).1 :=
      Function.update_self _ _ _
    have hothers : ∀ c', c' ≠ c → (next tx s (c, failed)).pc c' = s.pc c' := fun c' hne =>
      Function.update_of_ne hne _ _
    have hoks : ∀ c', ((next tx s (c, failed)).pc c').Ok (tx c') := by
      intro c'
      by_cases heq : c' = c
      · subst heq
        rw [hself]
        exact (hok c').step (stmtStep ..)
      · rw [hothers c' heq]
        exact hok c'
    refine ⟨hoks, fun serial => ?_⟩
    refine (honce serial).step hothers (fun h => h.step (hok c) (stmtStep ..))
      (fun hpc hcred data hdata hunpaid => ?_) (hself ▸ stageStep (hok c) serial (stmtStep ..))
    -- a call that starts to credit an order has the order's serial
    obtain ⟨rfl, hstatus⟩ := ok_of_crediting (hoks c) hcred
    have hfirst := hg hpc hstatus data hdata hunpaid
    rwa [show data.serial = (tx c).serial from lookup_key hdata] at hfirst
  obtain ⟨-, halong⟩ := always_of_guarded hkeep hinit (isRun_runOf _ _ as) hfound
  exact ⟨fun serial => ⟨(hinit.2 serial).quota, (hinit.2 serial).bonus⟩,
    halong.imp fun _ _ t hinv serial => ⟨(hinv.2 serial).quota, (hinv.2 serial).bonus⟩⟩

/-! ## The history and the money -/

/-- The fund of a user. -/
def fundOf (db : Db) (uid : ℤ) : Option ℚ := (lookup User.id db.users uid).map User.fund

/-- The bonus of a user. -/
def bonusOf (db : Db) (uid : ℤ) : Option ℚ := (lookup User.id db.users uid).map User.bonus

/-- The prices that were added to the fund of a user. -/
def quotaSum (quotas : List Order) (uid : ℤ) : ℚ :=
  ((quotas.filter fun data => data.uid = uid).map Order.proprice).sum

/-- The bonuses that were added to the bonus of a user. -/
def bonusSum (bonuses : List (Order × ℤ)) (uid : ℤ) : ℚ :=
  ((bonuses.filter fun entry => entry.2 = uid).map fun entry => entry.1.bonus).sum

/-- Every user has what there was at first and what the history adds to it. -/
structure Balanced (db : Db) (s : Site) : Prop where
  fund : ∀ uid, fundOf s.db uid = (fundOf db uid).map (· + quotaSum s.quotas uid)
  bonus : ∀ uid, bonusOf s.db uid = (bonusOf db uid).map (· + bonusSum s.bonuses uid)

/-- No name in the history ended the quotes of a statement. -/
def PlainQuotas (s : Site) : Prop := ∀ data ∈ s.quotas, PlainName data.proname

section Balance

variable {db : Db} {s : Site} {data : Order} {referId uid : ℤ}

theorem quotaSum_cons (quotas : List Order) : quotaSum (data :: quotas) uid =
    (if uid = data.uid then data.proprice else 0) + quotaSum quotas uid := by
  by_cases h : uid = data.uid
  · simp [quotaSum, h]
  · simp [quotaSum, h, Ne.symm h]

theorem bonusSum_cons (bonuses : List (Order × ℤ)) : bonusSum ((data, referId) :: bonuses) uid =
    (if uid = referId then data.bonus else 0) + bonusSum bonuses uid := by
  by_cases h : uid = referId
  · simp [bonusSum, h]
  · simp [bonusSum, h, Ne.symm h]

/-- The price of an order goes to the fund of its buyer. -/
theorem fundOf_quotaOf (db : Db) (hplain : PlainName data.proname) (uid : ℤ) :
    fundOf (db.quotaOf data) uid =
      (fundOf db uid).map (· + if uid = data.uid then data.proprice else 0) := by
  have hcol := column_write (g := User.fund) (h := (· + data.proprice))
    (f := .setQuota db.timestamp data.quota) (fun _ => setQuota_id) (fun _ => setQuota_fund)
    db.users data.uid uid
  rw [Db.quotaOf, updateQuota_of_plain hplain]
  refine hcol.trans ?_
  unfold fundOf
  split
  · rfl
  · simp [Function.comp_def]

theorem bonusOf_quotaOf (db : Db) (hplain : PlainName data.proname) (uid : ℤ) :
    bonusOf (db.quotaOf data) uid = bonusOf db uid := by
  rw [Db.quotaOf, updateQuota_of_plain hplain]
  exact column_write_of_same (f := .setQuota db.timestamp data.quota) (fun _ => setQuota_id)
    (fun _ => setQuota_bonus) db.users data.uid uid

theorem fundOf_writeBonus (db : Db) (referId : ℤ) (bonus : ℚ) (uid : ℤ) :
    fundOf (db.writeBonus referId bonus) uid = fundOf db uid :=
  column_write_of_same (addBonus_id bonus) (addBonus_fund bonus) db.users referId uid

/-- The bonus goes to the referrer. -/
theorem bonusOf_writeBonus (db : Db) (referId : ℤ) (bonus : ℚ) (uid : ℤ) :
    bonusOf (db.writeBonus referId bonus) uid =
      (bonusOf db uid).map (· + if uid = referId then bonus else 0) := by
  have hcol := column_write (h := (· + bonus)) (addBonus_id bonus) (addBonus_bonus bonus) db.users
    referId uid
  refine hcol.trans ?_
  unfold bonusOf
  split
  · rfl
  · simp [Function.comp_def]

/-- A price that is written and recorded keeps the balance. -/
theorem Balanced.quota (h : Balanced db s) (hplain : PlainName data.proname) :
    Balanced db { s with db := s.db.quotaOf data, quotas := data :: s.quotas } where
  fund uid := by
    show fundOf (s.db.quotaOf data) uid = _
    rw [fundOf_quotaOf s.db hplain, h.fund, Option.map_map, quotaSum_cons]
    congr 1
    ext x
    show x + quotaSum s.quotas uid + _ = x + (_ + quotaSum s.quotas uid)
    ring
  bonus uid := (bonusOf_quotaOf s.db hplain uid).trans (h.bonus uid)

/-- And so does a bonus. -/
theorem Balanced.addBonus (h : Balanced db s) (data : Order) (referId : ℤ) :
    Balanced db { s with
      db := s.db.writeBonus referId data.bonus, bonuses := (data, referId) :: s.bonuses } where
  fund uid := (fundOf_writeBonus s.db referId data.bonus uid).trans (h.fund uid)
  bonus uid := by
    show bonusOf (s.db.writeBonus referId data.bonus) uid = _
    rw [bonusOf_writeBonus, h.bonus, Option.map_map, bonusSum_cons]
    congr 1
    ext x
    show x + bonusSum s.bonuses uid + _ = x + (_ + bonusSum s.bonuses uid)
    ring

/-- Every statement keeps the balance, as long as no name ends its quotes. -/
theorem Balanced.step {tx : Transaction} {p q : Pc} {t : Site}
    (h : PlainQuotas s → Balanced db s) (hstep : StmtStep tx s p q t) (hplain : PlainQuotas t) :
    Balanced db t := by
  cases hstep with
  | @lose stage data hstage =>
    by_cases hunpaid : data.state = 0
    · rw [Site.lose, if_pos hunpaid] at hplain ⊢
      exact ⟨(h hplain).fund, (h hplain).bonus⟩
    · rw [Site.lose, if_neg hunpaid] at hplain ⊢
      exact h hplain
  | write => exact ⟨(h hplain).fund, (h hplain).bonus⟩
  | quota =>
    obtain ⟨hdata, hrest⟩ := List.forall_mem_cons.mp hplain
    exact (h hrest).quota hdata
  | bonus => exact (h hplain).addBonus _ _
  | _ => exact h hplain

/-- In every run in which no name ended its quotes, the funds and the bonuses are those before the
run and what the history adds. -/
theorem balanced_run {ι : Type*} [DecidableEq ι] (tx : ι → Transaction) (db : Db)
    {s : Calls ι} (h : Reachable (fun s a t => t = next tx s a) (· = Calls.start ι db) s)
    (hplain : PlainQuotas s.site) : Balanced db s.site := by
  have hstart : ∀ s : Calls ι, s = Calls.start ι db → PlainQuotas s.site → Balanced db s.site := by
    rintro s rfl -
    exact ⟨fun uid => by simp [Calls.start, quotaSum], fun uid => by simp [Calls.start, bonusSum]⟩
  have hstep : ∀ (s : Calls ι) a t, (PlainQuotas s.site → Balanced db s.site) → t = next tx s a →
      PlainQuotas t.site → Balanced db t.site := by
    rintro s a t hs rfl
    exact Balanced.step hs (stmtStep ..)
  exact h.invariant hstart hstep hplain

end Balance

/-! ## A call without others -/

/-- Whether the statement at this place fails. -/
def Failures.at (fails : Failures) : Pc → Bool
  | .at .writeState _ => fails.state
  | .at .updateQuota _ => fails.quota
  | .at (.writeBonus _) _ => fails.bonus
  | _ => false

/-- The next statement of a call that nothing interrupts. -/
def stepAlone (tx : Transaction) (fails : Failures) (x : Pc × Site) : Pc × Site :=
  stmt tx (fails.at x.1) x.2 x.1

/-- Some number of statements takes the call from `x` to `p`, over the tables `db`. -/
def Leads (tx : Transaction) (fails : Failures) (x : Pc × Site) (p : Pc) (db : Db) : Prop :=
  ∃ n t, (stepAlone tx fails)^[n] x = (p, t) ∧ t.db = db

section Alone

variable {tx : Transaction} {fails : Failures} {s : Site} {x : Pc × Site} {p q : Pc} {db : Db}
  {data : Order}

theorem Leads.refl : Leads tx fails (p, s) p s.db := ⟨0, s, rfl, rfl⟩

/-- One statement, and the rest of the way. -/
theorem Leads.step (h : Leads tx fails (stepAlone tx fails x) p db) : Leads tx fails x p db := by
  obtain ⟨n, t, ht, hdb⟩ := h
  exact ⟨n + 1, t, ht, hdb⟩

/-- `Order_mdl::update`. -/
theorem leads_update : Leads tx fails (.at .isExist data, s) (afterUpdate data)
    (s.db.update fails.state tx.serial tx.platform tx.platformSerial tx.status).2 := by
  refine .step ?_
  show Leads tx fails (stmt tx false s (.at .isExist data)) _ _
  have hlose : (s.lose data).db = s.db := lose_db
  unfold Db.update
  simp only [stmt]
  split
  · refine .step ?_
    show Leads tx fails (stmt tx fails.state s (.at .writeState data)) _ _
    simp only [stmt]
    split
    · rw [← hlose]
      exact .refl
    · exact .refl
  · dsimp only
    rw [← hlose]
    exact .refl

/-- `update_bonus`. -/
theorem leads_updateBonus : Leads tx fails (.at .readRefer data, s) .done
    (s.db.updateBonus fails.bonus data.uid data.bonus) := by
  refine .step ?_
  show Leads tx fails (stmt tx false s (.at .readRefer data)) _ _
  unfold Db.updateBonus
  simp only [stmt]
  cases bonusRefer s.db.users data.uid data.bonus with
  | none => exact .refl
  | some referId =>
    refine .step ?_
    show Leads tx fails (stmt tx fails.bonus s (.at (.writeBonus referId) data)) _ _
    simp only [stmt]
    split <;> exact .refl

/-- `update_quota`, and then `update_bonus`. -/
theorem leads_updateQuota : Leads tx fails (.at .updateQuota data, s) .done
    ((if fails.quota then s.db else s.db.quotaOf data).updateBonus fails.bonus data.uid
      data.bonus) := by
  refine .step ?_
  show Leads tx fails (stmt tx fails.quota s (.at .updateQuota data)) _ _
  simp only [stmt]
  split <;> exact leads_updateBonus

/-- A way that goes on from wherever the first part ends. -/
theorem Leads.trans {db' : Db} (h : Leads tx fails x p db)
    (h' : ∀ t : Site, t.db = db → Leads tx fails (p, t) q db') : Leads tx fails x q db' := by
  obtain ⟨n, t, ht, hdb⟩ := h
  obtain ⟨m, u, hu, hu'⟩ := h' t hdb
  refine ⟨m + n, u, ?_, hu'⟩
  rw [Function.iterate_add_apply, ht, hu]

/-- A call that nothing interrupts does what `order_transaction` does. -/
theorem alone_eq_orderTransaction (tx : Transaction) (fails : Failures) (s : Site) :
    Leads tx fails (.getBySerial, s) .done (orderTransaction fails s.db tx).db := by
  refine .step ?_
  show Leads tx fails (stmt tx false s .getBySerial) _ _
  unfold orderTransaction
  simp only [stmt]
  cases getBySerial s.db.orders tx.serial with
  | none => exact .refl
  | some data =>
    dsimp only
    by_cases hstatus : tx.status = 0
    · -- nothing to do, whatever the state
      by_cases hstate : data.state = 0
      · rw [if_pos hstatus, if_neg fun h => h.2 hstatus, if_pos ⟨hstate, hstatus⟩]
        exact .refl
      · rw [if_pos hstatus, if_neg fun h => h.2 hstatus, if_neg fun h => hstate h.1,
          if_pos ⟨hstate, hstatus⟩]
        exact .refl
    · by_cases hstate : data.state = 0
      · rw [if_neg hstatus, if_pos ⟨hstate, hstatus⟩]
        refine leads_update.trans fun t ht => ?_
        rw [afterUpdate_of_unpaid hstate, ← ht]
        exact leads_updateQuota
      · rw [if_neg hstatus, if_neg fun h => hstate h.1, if_neg fun h => hstate h.1,
          if_neg fun h => hstatus h.2]
        have hafter : afterUpdate data = .done := if_neg hstate
        exact hafter ▸ leads_update

end Alone

/-! ## Two callbacks for the month of `bob` -/

/-- The message of a buyer who has paid, on either callback. -/
def monthPaid : Message :=
  ⟨true, "201306010000020001", "2013060100001000", some "WAIT_SELLER_SEND_GOODS", "VIP", 15⟩

/-- The call of the return page and the call of the notification. -/
def monthCalls : Callback → Transaction
  | .alipayReturnUrl => ⟨"201306010000020001", "alipay_sync", "2013060100001000", 1⟩
  | .alipayNotifyUrl => ⟨"201306010000020001", "alipay_async", "2013060100001000", 1⟩

/-- The return page is served, and then the notification. -/
def oneAfterAnother : List (Callback × Bool) :=
  List.replicate 6 (.alipayReturnUrl, false) ++ List.replicate 3 (.alipayNotifyUrl, false)

/-- Both calls read the order before either writes its state. -/
def bothRead : List (Callback × Bool) :=
  [(.alipayReturnUrl, false), (.alipayNotifyUrl, false)] ++
    List.replicate 3 (.alipayReturnUrl, false) ++ List.replicate 3 (.alipayNotifyUrl, false)

theorem creditedOnce_oneAfterAnother :
    Guarded (FoundFirst monthCalls) (Calls.start Callback oneOrderDb)
        (runOf (next monthCalls) (Calls.start Callback oneOrderDb) oneAfterAnother) ∧
      Always CreditedOnce (Calls.start Callback oneOrderDb)
        (runOf (next monthCalls) (Calls.start Callback oneOrderDb) oneAfterAnother) := by
  have hguarded : Guarded (FoundFirst monthCalls) (Calls.start Callback oneOrderDb)
      (runOf (next monthCalls) (Calls.start Callback oneOrderDb) oneAfterAnother) := by
    -- only the first statement of a call finds an order
    have hlater : ∀ {s : Calls Callback} {a : Callback × Bool}, (s.pc a.1).started = true →
        FoundFirst monthCalls s a := by
      intro s a hstarted h
      rw [h] at hstarted
      cases hstarted
    refine .intro (fun _ _ data _ _ => ⟨List.not_mem_nil, ?_⟩) ?_
    · rintro c (h | h)
      · cases h
      · cases h
    iterate 5 refine .intro (hlater (by decide +kernel)) ?_
    refine .intro (fun _ _ data hdata hunpaid => ?_) ?_
    · -- the state is 1 by now
      have hpaid : (getBySerial (final (Calls.start Callback oneOrderDb) (runOf (next monthCalls)
          (Calls.start Callback oneOrderDb) (oneAfterAnother.take 6))).site.db.orders
          "201306010000020001").map Order.state = some 1 := by decide +kernel
      have hstate := (congrArg (Option.map Order.state) hdata).symm.trans hpaid
      rw [Option.map_some, hunpaid] at hstate
      cases hstate
    iterate 2 refine .intro (hlater (by decide +kernel)) ?_
    trivial
  exact ⟨hguarded, creditedOnce monthCalls oneOrderDb oneAfterAnother hguarded⟩

/-- Not every interleaving credits once: the two callbacks of one payment credit it twice. -/
theorem not_creditedOnce_bothRead :
    (∀ c, index c monthPaid = some (monthCalls c)) ∧
      ¬Always CreditedOnce (Calls.start Callback oneOrderDb)
        (runOf (next monthCalls) (Calls.start Callback oneOrderDb) bothRead) := by
  refine ⟨fun c => by cases c <;> rfl, fun h => ?_⟩
  have hlast := (h.last "201306010000020001").1
  have htwice : quotaCount (final (Calls.start Callback oneOrderDb)
      (runOf (next monthCalls) (Calls.start Callback oneOrderDb) bothRead)).site
      "201306010000020001" = 2 := rfl
  omega

end Gendo
