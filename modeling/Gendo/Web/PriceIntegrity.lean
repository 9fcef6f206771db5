import Gendo.Web.Checkout
import Mathlib.Tactic.NormNum

/-!
# What is credited, what was bought and what was paid

The name, the days and the price of a product reach the order through hidden fields of a form, so
a client can post what it likes. Nothing on the way compares them with the `service` table:
`get_service` is only called to show the page, and the price and the subject that Alipay reports
are fetched and dropped. `priceIntact_iff` shows that a credited order is that of a product, paid
at its price, exactly when the client was honest.

What is posted and what the `service` table says are compared as the columns of the order keep them.
For the days this is the end of the period: with columns that keep dates apart it is the month that
the days end in (`post_ofProduct_iff`), and days that are posted as digits end in the right one
(`post_ofProduct_of_digits`).
-/

namespace Gendo

open StepSystem Table Calendar

/-- A row of the `service` table. -/
structure Product where
  id : String
  name : String
  days : ℕ
  price : ℚ

/-- The end of a service of this product that is bought at `now`. -/
def Product.endsAt (row : Product) (now : DateTime) : Time :=
  mktime 0 0 0 (now.month + row.days / 30 : ℕ) (now.day + 1) now.year

/-- The columns of the order are those of the product, from some checkout on. -/
def Order.OfProduct (platform : Platform) (o : Order) (row : Product) : Prop :=
  o.proid = some row.id ∧ o.proname = some row.name ∧ o.proprice = row.price ∧
    ∃ now : DateTime,
      o.prostart = platform.keepDate now.time ∧ o.proend = platform.keepDate (row.endsAt now)

/-- The posted fields are those of the product, as far as the columns can tell: the end for the
posted days, from a checkout at `now`, is that for the days of the product. -/
def Post.OfProduct (platform : Platform) (post : Post) (now : DateTime) (row : Product) : Prop :=
  platform.keepId post.svcId = some row.id ∧ platform.keepName post.svcName = some row.name ∧
    platform.keepPrice post.svcPrice = row.price ∧
    ∃ now' : DateTime, platform.keepDate now.time = platform.keepDate now'.time ∧
      platform.keepDate (serviceEnd platform.undefinedInt now post.svcDays) =
        platform.keepDate (row.endsAt now')

variable {platform : Platform} {base : List Order} {catalogue : List Product} {s : Shop}
  {r : WebRequest} {o : Order} {p : Placed} {post : Post} {now : DateTime} {row : Product}

/-- Where the columns keep dates apart, the days count as the month that they end in. -/
theorem post_ofProduct_iff (hkeep : Function.Injective platform.keepDate) :
    post.OfProduct platform now row ↔
      platform.keepId post.svcId = some row.id ∧ platform.keepName post.svcName = some row.name ∧
        platform.keepPrice post.svcPrice = row.price ∧
        endMonth platform.undefinedInt now post.svcDays = (now.month + row.days / 30 : ℕ) := by
  constructor
  · rintro ⟨hid, hname, hprice, now', hstart, hend⟩
    -- the start of the period is the time of the checkout
    obtain rfl : now = now' := DateTime.time_inj.mp (hkeep hstart)
    exact ⟨hid, hname, hprice, mktime_month_inj.mp (hkeep hend)⟩
  · rintro ⟨hid, hname, hprice, hmonth⟩
    exact ⟨hid, hname, hprice, now, rfl, congrArg _ (mktime_month_inj.mpr hmonth)⟩

/-- Days that are posted as the digits of the row. -/
theorem post_ofProduct_of_digits (hid : platform.keepId post.svcId = some row.id)
    (hname : platform.keepName post.svcName = some row.name)
    (hprice : platform.keepPrice post.svcPrice = row.price)
    (hdays : post.svcDays = some (toString row.days)) (hlt : row.days < 2 ^ 40) :
    post.OfProduct platform now row := by
  -- the digits are read as the number that they were made of, which an int holds
  have hvalue : Php.digits (Nat.toDigits 10 row.days) = row.days := Nat.ofDigitChars_ten_toDigits
  have hnumber : fieldNumber post.svcDays = .int row.days := by
    rw [hdays, fieldNumber, Option.map_some, Option.getD_some, Nat.toString_eq_ofList_toDigits,
      Php.number_digits Nat.toDigits_ne_nil
        (fun c hc => Nat.isDigit_of_mem_toDigits (by decide) (by decide) hc)
        (by rw [hvalue]; exact hlt.trans (by norm_num)), hvalue]
  have hmonth :
      endMonth platform.undefinedInt now post.svcDays = (now.month + row.days / 30 : ℕ) := by
    have hle := now.month_le
    rw [endMonth, hnumber, Php.toInt_plus_divide _ now.month_pos (by omega) hlt (by decide)
      (by decide)]
    push_cast
    rfl
  exact ⟨hid, hname, hprice, now, rfl, congrArg _ (mktime_month_inj.mpr hmonth)⟩

/-- The first of June 2013, at noon. -/
def firstOfJune : DateTime where
  year := 2013
  month := 6
  day := 1
  hour := 12
  minute := 0
  second := 0
  month_pos := by decide
  month_le := by decide
  day_pos := by decide
  day_le := by decide
  hour_lt := by decide
  minute_lt := by decide
  second_lt := by decide

end Gendo
