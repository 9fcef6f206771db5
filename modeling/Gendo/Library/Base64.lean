import Mathlib.Algebra.Group.Nat.Defs
import Mathlib.Data.List.Basic
import Mathlib.Data.Option.Basic
import Mathlib.Tactic.Common

/-!
# Base64

The encoding of bytes with padding: three bytes are a number of 24 bits, which is written with four
digits of 6 bits. `decode_encode` says that the bytes can be read back.
-/

namespace Base64

/-- The digits, `A-Za-z0-9+/`. -/
def alphabet : List UInt8 :=
  [65, 66, 67, 68, 69, 70, 71, 72, 73, 74, 75, 76, 77, 78, 79, 80,
    81, 82, 83, 84, 85, 86, 87, 88, 89, 90, 97, 98, 99, 100, 101, 102,
    103, 104, 105, 106, 107, 108, 109, 110, 111, 112, 113, 114, 115, 116, 117, 118,
    119, 120, 121, 122, 48, 49, 50, 51, 52, 53, 54, 55, 56, 57, 43, 47]

/-- The padding, `=`. -/
def pad : UInt8 := 61

/-- The digit with a value. -/
def digit (v : ℕ) : UInt8 := alphabet.getD v 0

/-- The value of a digit. -/
def value (c : UInt8) : Option ℕ := alphabet.idxOf? c

/-- The digits of the bytes, with padding. -/
def encode : List UInt8 → List UInt8
  | [] => []
  | [a] =>
    let v := a.toNat * 2 ^ 4
    [digit (v / 2 ^ 6), digit (v % 2 ^ 6), pad, pad]
  | [a, b] =>
    let v := (a.toNat * 2 ^ 8 + b.toNat) * 2 ^ 2
    [digit (v / 2 ^ 12), digit (v / 2 ^ 6 % 2 ^ 6), digit (v % 2 ^ 6), pad]
  | a :: b :: c :: rest =>
    let v := (a.toNat * 2 ^ 8 + b.toNat) * 2 ^ 8 + c.toNat
    digit (v / 2 ^ 18) :: digit (v / 2 ^ 12 % 2 ^ 6) :: digit (v / 2 ^ 6 % 2 ^ 6) ::
      digit (v % 2 ^ 6) :: encode rest

/-- The bytes of a group of digits, and whether it is the last one. -/
def decodeGroup (p q r s : UInt8) : Option (List UInt8 × Bool) := do
  let vp ← value p
  let vq ← value q
  if r = pad ∧ s = pad then
    return ([.ofNat ((vp * 2 ^ 6 + vq) / 2 ^ 4)], true)
  else if s = pad then
    let vr ← value r
    let v := ((vp * 2 ^ 6 + vq) * 2 ^ 6 + vr) / 2 ^ 2
    return ([.ofNat (v / 2 ^ 8), .ofNat (v % 2 ^ 8)], true)
  else
    let vr ← value r
    let vs ← value s
    let v := ((vp * 2 ^ 6 + vq) * 2 ^ 6 + vr) * 2 ^ 6 + vs
    return ([.ofNat (v / 2 ^ 16), .ofNat (v / 2 ^ 8 % 2 ^ 8), .ofNat (v % 2 ^ 8)], false)

/-- The bytes that digits stand for. Only the last group has padding. -/
def decode : List UInt8 → Option (List UInt8)
  | [] => some []
  | p :: q :: r :: s :: rest => do
    let (bytes, last) ← decodeGroup p q r s
    if last then (if rest = [] then some bytes else none)
    else do
      let tail ← decode rest
      return bytes ++ tail
  | _ => none

section

variable {v : ℕ}

/-- A digit is read back, and is no padding. -/
theorem value_digit (h : v < 2 ^ 6) : value (digit v) = some v ∧ digit v ≠ pad := by
  have hall : ∀ v : Fin 64, value (digit v) = some v.val ∧ digit v ≠ pad := by decide +kernel
  exact hall ⟨v, h⟩

/-- A byte from its value. -/
theorem ofNat_eq {a : UInt8} {n : ℕ} (h : n = a.toNat) : UInt8.ofNat n = a := by
  rw [h, UInt8.ofNat_toNat]

/-- What was encoded is decoded. -/
theorem decode_encode (bytes : List UInt8) : decode (encode bytes) = some bytes := by
  fun_induction encode bytes with
  | case1 => rfl
  | case2 a v =>
    have ha := a.toNat_lt
    obtain ⟨hp, -⟩ := @value_digit (v / 2 ^ 6) (by omega)
    obtain ⟨hq, -⟩ := @value_digit (v % 2 ^ 6) (Nat.mod_lt _ (by decide))
    have hbyte : UInt8.ofNat ((v / 2 ^ 6 * 2 ^ 6 + v % 2 ^ 6) / 2 ^ 4) = a := ofNat_eq (by omega)
    simp only [decode, decodeGroup, hp, hq, and_self, if_true, Option.bind_eq_bind,
      Option.bind_some, hbyte]
    rfl
  | case3 a b v =>
    have ha := a.toNat_lt
    have hb := b.toNat_lt
    obtain ⟨hp, -⟩ := @value_digit (v / 2 ^ 12) (by omega)
    obtain ⟨hq, -⟩ := @value_digit (v / 2 ^ 6 % 2 ^ 6) (Nat.mod_lt _ (by decide))
    obtain ⟨hr, hpad⟩ := @value_digit (v % 2 ^ 6) (Nat.mod_lt _ (by decide))
    have hv : ((v / 2 ^ 12 * 2 ^ 6 + v / 2 ^ 6 % 2 ^ 6) * 2 ^ 6 + v % 2 ^ 6) / 2 ^ 2 =
        a.toNat * 2 ^ 8 + b.toNat := by omega
    have hfirst : UInt8.ofNat ((a.toNat * 2 ^ 8 + b.toNat) / 2 ^ 8) = a := ofNat_eq (by omega)
    have hsecond : UInt8.ofNat ((a.toNat * 2 ^ 8 + b.toNat) % 2 ^ 8) = b := ofNat_eq (by omega)
    simp only [decode, decodeGroup, hp, hq, hr, hpad, false_and, if_false, if_true,
      Option.bind_eq_bind, Option.bind_some, hv, hfirst, hsecond]
    rfl
  | case4 a b c rest v ih =>
    have ha := a.toNat_lt
    have hb := b.toNat_lt
    have hc := c.toNat_lt
    obtain ⟨hp, -⟩ := @value_digit (v / 2 ^ 18) (by omega)
    obtain ⟨hq, -⟩ := @value_digit (v / 2 ^ 12 % 2 ^ 6) (Nat.mod_lt _ (by decide))
    obtain ⟨hr, -⟩ := @value_digit (v / 2 ^ 6 % 2 ^ 6) (Nat.mod_lt _ (by decide))
    obtain ⟨hs, hpad⟩ := @value_digit (v % 2 ^ 6) (Nat.mod_lt _ (by decide))
    have hv : ((v / 2 ^ 18 * 2 ^ 6 + v / 2 ^ 12 % 2 ^ 6) * 2 ^ 6 + v / 2 ^ 6 % 2 ^ 6) * 2 ^ 6 +
        v % 2 ^ 6 = v := by omega
    have hfirst : UInt8.ofNat (v / 2 ^ 16) = a := ofNat_eq (by omega)
    have hsecond : UInt8.ofNat (v / 2 ^ 8 % 2 ^ 8) = b := ofNat_eq (by omega)
    have hthird : UInt8.ofNat (v % 2 ^ 8) = c := ofNat_eq (by omega)
    simp only [decode, decodeGroup, hp, hq, hr, hs, hpad, and_false, if_false,
      Option.bind_eq_bind, Option.bind_some, hv, hfirst, hsecond, hthird, ih]
    rfl

end

end Base64
