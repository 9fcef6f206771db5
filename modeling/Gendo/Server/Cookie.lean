import Gendo.Library.Md5
import Gendo.Library.TextStream
import Gendo.Server.Ticket

/-!
# Cookies

`lib_cookie_create` makes a cookie of two numbers: the digits of both, one after the other, go into
the context that `lib_cookie_init` has initialised, and the digest is written in hexadecimal. The
context is initialised only once. `cookiesOwn_iff` says how many cookies depend on their own numbers
only: the first one.
-/

namespace Gendo

open ByteMemory (CString)
open TextStream (decimal)

/-- The functions of OpenSSL that cookies are made with. A digest is promised for what goes into a
context between `MD5_Init` and the first `MD5_Final`. -/
structure Md5Lib where
  Ctx : Type
  init : Ctx
  update : Ctx → List UInt8 → Ctx
  final : Ctx → List.Vector UInt8 16 × Ctx
  md5 : List UInt8 → List.Vector UInt8 16
  final_update : ∀ pieces : List (List UInt8),
    (final (pieces.foldl update init)).1 = md5 pieces.flatten

namespace Md5Lib

/-- `sprintf(buffer, "%d%d", id, random)` -/
def cookieText (id random : Int32) : List UInt8 := decimal id.toInt ++ decimal random.toInt

-- where the first number ends is not in the text
example : cookieText 1 23 = cookieText 12 3 := by decide

variable (lib : Md5Lib)

/-- `lib_cookie_init` -/
def libCookieInit : lib.Ctx := lib.init

/-- `lib_cookie_create`: what it returns, the cookie and the context. A null pointer is `none`. -/
def libCookieCreate (ctx : lib.Ctx) (cookie : Option (List UInt8)) (id random : Int32) :
    ℤ × Option (List UInt8) × lib.Ctx :=
  match cookie with
  | none => (-1, none, ctx)
  | some cookie =>
    -- the context goes on from what the cookie before has left
    let (md, ctx) := lib.final (lib.update ctx (cookieText id random))
    (0, some (cookie ++ md.toList.flatMap encodeByte), ctx)

/-- Cookies one after another, each in an empty buffer. -/
def cookies (ctx : lib.Ctx) : List (Int32 × Int32) → List (Option (List UInt8))
  | [] => []
  | (id, random) :: calls =>
    let (_, cookie, ctx) := lib.libCookieCreate ctx (some []) id random
    cookie :: cookies ctx calls

/-- Every cookie is the digest of a string that belongs to its own numbers, and to no others that a
cookie was made of. -/
def CookiesOwn (calls : List (Int32 × Int32)) : Prop :=
  ∃ text : Int32 × Int32 → List UInt8,
    (∀ c ∈ calls, ∀ d ∈ calls, text c = text d → c = d) ∧
      lib.cookies lib.libCookieInit calls =
        calls.map fun c => some ((lib.md5 (text c)).toList.flatMap encodeByte)

/-! ## The first cookie -/

/-- The first cookie is the digest of its text. -/
theorem libCookieCreate_init (id random : Int32) :
    (lib.libCookieCreate lib.libCookieInit (some []) id random).2.1 =
      some ((lib.md5 (cookieText id random)).toList.flatMap encodeByte) := by
  have hdigest := lib.final_update [cookieText id random]
  rw [List.flatten_singleton] at hdigest
  rw [← hdigest]
  rfl

/-- A digest can be read from its cookie. -/
theorem encode_inj {md md' : List.Vector UInt8 16}
    (h : md.toList.flatMap encodeByte = md'.toList.flatMap encodeByte) : md = md' := by
  have hlist := congrArg decodeStrLoop h
  rw [decodeStrLoop_encode, decodeStrLoop_encode] at hlist
  exact List.Vector.toList_injective hlist

/-! ## Those behind it -/

/-- A library whose digests are all the same, but for a context that was not initialised again. -/
def onceOnly : Md5Lib where
  Ctx := Bool
  init := true
  update ctx _ := ctx
  final ctx := (if ctx then .replicate 16 0 else .replicate 16 1, false)
  md5 _ := .replicate 16 0
  final_update pieces := by
    have hctx : pieces.foldl (fun (ctx : Bool) _ => ctx) true = true := by
      induction pieces with
      | nil => rfl
      | cons piece pieces ih => exact ih
    rw [hctx]
    rfl

/-- With it, the second cookie is no digest. -/
theorem onceOnly_cookies (c d : Int32 × Int32) (calls : List (Int32 × Int32)) :
    ¬onceOnly.CookiesOwn (c :: d :: calls) := by
  rintro ⟨text, -, hcookies⟩
  have hsecond : some ((List.Vector.replicate 16 (1 : UInt8)).toList.flatMap encodeByte) =
      some ((List.Vector.replicate 16 (0 : UInt8)).toList.flatMap encodeByte) :=
    (List.cons.inj (List.cons.inj hcookies).2).1
  -- a digest can be read back from a cookie, and the two digests differ
  have hdigest := encode_inj (Option.some_inj.1 hsecond)
  exact absurd hdigest (by decide)

/-- Cookies depend on their own numbers exactly as long as there is no second one. -/
theorem cookiesOwn_iff (calls : List (Int32 × Int32)) :
    (∀ lib : Md5Lib, lib.CookiesOwn calls) ↔ calls.length ≤ 1 := by
  constructor
  · intro hown
    rcases calls with _ | ⟨c, _ | ⟨d, calls⟩⟩
    · exact Nat.zero_le 1
    · exact le_rfl
    · exact absurd (hown onceOnly) (onceOnly_cookies c d calls)
  · intro hlen lib
    rcases calls with _ | ⟨c, _ | ⟨d, calls⟩⟩
    · exact ⟨fun _ => [], by simp, rfl⟩
    · refine ⟨fun c => cookieText c.1 c.2, by simp, ?_⟩
      exact congrArg (fun cookie => [cookie]) (lib.libCookieCreate_init c.1 c.2)
    · simp at hlen

/-- MD5 itself. -/
def openSsl : Md5Lib where
  Ctx := Md5.Ctx
  init := Md5.init
  update := Md5.update
  final := Md5.final
  md5 := Md5.md5
  final_update pieces := by
    rw [Md5.foldl_update]
    rfl

/-- Two cookies for the same numbers are not the same. -/
theorem not_cookiesOwn :
    ¬∀ (lib : Md5Lib) (calls : List (Int32 × Int32)), lib.CookiesOwn calls := by
  intro h
  obtain ⟨text, -, hcookies⟩ := h openSsl [(1, 1), (1, 1)]
  -- whatever text belongs to the numbers, both cookies would be its digest
  have hsame := (List.cons.inj hcookies).1.trans (List.cons.inj (List.cons.inj hcookies).2).1.symm
  revert hsame
  decide +kernel

end Md5Lib

end Gendo
