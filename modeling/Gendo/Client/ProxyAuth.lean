import Gendo.Library.Base64
import Gendo.Library.WordBits

/-!
# The credentials for a proxy

`to64frombits`, of which there are two copies: in `RopProxy.cpp` and in `RopAsyncSocket.cpp`. Both
write the Base64 encoding of the bytes and a NUL, `to64frombits_spec`.
-/

namespace Gendo.Client

open WordBits

/-- `base64digits`, with its NUL. -/
def base64digits : List UInt8 :=
  ("ABCDEFGHIJKLMNOPQRSTUVWXYZabcdefghijklmnopqrstuvwxyz0123456789+/".toList.map
    fun c => .ofNat c.toNat) ++ [0]

/-- An entry of `base64digits`. -/
def base64digit (i : ℕ) : UInt8 := base64digits.getD i 0

namespace RopProxy

/-- `to64frombits` for the `inlen` bytes at `in`: what is written to `out`. -/
def to64frombits : List UInt8 → List UInt8
  | in0 :: in1 :: in2 :: input =>
    base64digit (in0.toNat >>> 2) ::
      base64digit (((in0.toNat <<< 4) &&& 0x30) ||| (in1.toNat >>> 4)) ::
      base64digit (((in1.toNat <<< 2) &&& 0x3c) ||| (in2.toNat >>> 6)) ::
      base64digit (in2.toNat &&& 0x3f) :: to64frombits input
  | [in0, in1] =>
    let fragment := ((in0.toNat <<< 4) &&& 0x30) ||| (in1.toNat >>> 4)
    [base64digit (in0.toNat >>> 2), base64digit fragment,
      base64digit ((in1.toNat <<< 2) &&& 0x3c), 61, 0]
  | [in0] =>
    let fragment := (in0.toNat <<< 4) &&& 0x30
    [base64digit (in0.toNat >>> 2), base64digit fragment, 61, 61, 0]
  | [] => [0]

end RopProxy

namespace RopAsyncSocket

/-- `RopAsyncSocket::to64frombits`, likewise. -/
def to64frombits : List UInt8 → List UInt8
  | in0 :: in1 :: in2 :: input =>
    base64digit (in0.toNat >>> 2) ::
      base64digit (((in0.toNat <<< 4) &&& 0x30) ||| (in1.toNat >>> 4)) ::
      base64digit (((in1.toNat <<< 2) &&& 0x3c) ||| (in2.toNat >>> 6)) ::
      base64digit (in2.toNat &&& 0x3f) :: to64frombits input
  | [in0, in1] =>
    let fragment := ((in0.toNat <<< 4) &&& 0x30) ||| (in1.toNat >>> 4)
    [base64digit (in0.toNat >>> 2), base64digit fragment,
      base64digit ((in1.toNat <<< 2) &&& 0x3c), 61, 0]
  | [in0] =>
    let fragment := (in0.toNat <<< 4) &&& 0x30
    [base64digit (in0.toNat >>> 2), base64digit fragment, 61, 61, 0]
  | [] => [0]

end RopAsyncSocket

section

variable {a b c : ℕ}

/-- The digits of the array are those of the alphabet. -/
theorem base64digit_eq {v : ℕ} (h : v < 64) : base64digit v = Base64.digit v := by
  have hall : ∀ v : Fin 64, base64digit v = Base64.digit v := by decide +kernel
  exact hall ⟨v, h⟩

theorem base64digit_mod (v : ℕ) : base64digit (v % 2 ^ 6) = Base64.digit (v % 2 ^ 6) :=
  base64digit_eq (Nat.mod_lt v (by decide))

/-- The last two bits of a byte and the first four of the next one. -/
theorem second_digit (hb : b < 256) :
    ((a <<< 4) &&& 0x30) ||| (b >>> 4) = (a * 2 ^ 8 + b) / 2 ^ 4 % 2 ^ 6 := by
  have hand : (a <<< 4) &&& 0x30 = (a % 4) <<< 4 := by
    have hmask := and_shiftLeft_mask (a <<< 4) 4 2
    rwa [Nat.shiftLeft_shiftRight] at hmask
  have hlow : b >>> 4 < 2 ^ 4 := by
    rw [Nat.shiftRight_eq_div_pow]
    omega
  rw [hand, ← Nat.shiftLeft_add_eq_or_of_lt hlow, Nat.shiftLeft_eq, Nat.shiftRight_eq_div_pow]
  omega

/-- The last four bits of a byte and the first two of the next one. -/
theorem third_digit (hc : c < 256) :
    ((b <<< 2) &&& 0x3c) ||| (c >>> 6) = (b * 2 ^ 8 + c) / 2 ^ 6 % 2 ^ 6 := by
  have hand : (b <<< 2) &&& 0x3c = (b % 16) <<< 2 := by
    have hmask := and_shiftLeft_mask (b <<< 2) 2 4
    rwa [Nat.shiftLeft_shiftRight] at hmask
  have hlow : c >>> 6 < 2 ^ 2 := by
    rw [Nat.shiftRight_eq_div_pow]
    omega
  rw [hand, ← Nat.shiftLeft_add_eq_or_of_lt hlow, Nat.shiftLeft_eq, Nat.shiftRight_eq_div_pow]
  omega

end

/-- The encoding, and a NUL. -/
theorem to64frombits_eq (input : List UInt8) :
    RopProxy.to64frombits input = Base64.encode input ++ [0] := by
  -- the digits are cut out of the bytes by shifts and masks there, and of their number here
  fun_induction Base64.encode input with
  | case1 => rfl
  | case2 in0 v =>
    have h0 := in0.toNat_lt
    have hsecond := @second_digit in0.toNat 0 (by decide)
    rw [Nat.zero_shiftRight, Nat.or_zero] at hsecond
    have hlast : (in0.toNat * 2 ^ 8 + 0) / 2 ^ 4 % 2 ^ 6 = v % 2 ^ 6 := by omega
    have hfirst : in0.toNat >>> 2 = v / 2 ^ 6 := by
      rw [Nat.shiftRight_eq_div_pow]
      omega
    simp only [RopProxy.to64frombits]
    rw [hsecond, hlast, hfirst, base64digit_eq (by omega), base64digit_mod]
    rfl
  | case3 in0 in1 v =>
    have h0 := in0.toNat_lt
    have h1 := in1.toNat_lt
    have hv : v = (in0.toNat * 256 + in1.toNat) * 4 := rfl
    clear_value v
    have hthird := @third_digit in1.toNat 0 (by decide)
    rw [Nat.zero_shiftRight, Nat.or_zero] at hthird
    have hlast : (in1.toNat * 2 ^ 8 + 0) / 2 ^ 6 % 2 ^ 6 = v % 2 ^ 6 := by omega
    have hmid : (in0.toNat * 2 ^ 8 + in1.toNat) / 2 ^ 4 = v / 2 ^ 6 := by omega
    have hfirst : in0.toNat >>> 2 = v / 2 ^ 12 := by
      rw [Nat.shiftRight_eq_div_pow]
      omega
    simp only [RopProxy.to64frombits]
    rw [second_digit h1, hthird, hlast, hmid, hfirst, base64digit_eq (by omega),
      base64digit_mod, base64digit_mod]
    rfl
  | case4 in0 in1 in2 input v ih =>
    have h0 := in0.toNat_lt
    have h1 := in1.toNat_lt
    have h2 := in2.toNat_lt
    have hv : v = (in0.toNat * 256 + in1.toNat) * 256 + in2.toNat := rfl
    clear_value v
    have hlast : in2.toNat &&& 0x3f = v % 2 ^ 6 := by
      rw [show (0x3f : ℕ) = 2 ^ 6 - 1 by decide, Nat.and_two_pow_sub_one_eq_mod]
      omega
    have hthird : (in1.toNat * 2 ^ 8 + in2.toNat) / 2 ^ 6 % 2 ^ 6 = v / 2 ^ 6 % 2 ^ 6 := by omega
    have hsecond : (in0.toNat * 2 ^ 8 + in1.toNat) / 2 ^ 4 = v / 2 ^ 12 := by omega
    have hfirst : in0.toNat >>> 2 = v / 2 ^ 18 := by
      rw [Nat.shiftRight_eq_div_pow]
      omega
    rw [RopProxy.to64frombits, second_digit h1, third_digit h2, hlast, hthird, hsecond, hfirst,
      base64digit_eq (by omega), base64digit_mod, base64digit_mod, base64digit_mod, ih]
    rfl

/-- The copies do the same. -/
theorem asyncSocket_eq_proxy (input : List UInt8) :
    RopAsyncSocket.to64frombits input = RopProxy.to64frombits input := by
  fun_induction RopProxy.to64frombits input with
  | case1 in0 in1 in2 input ih => rw [RopAsyncSocket.to64frombits, ih]
  | case2 in0 in1 fragment => rfl
  | case3 in0 fragment => rfl
  | case4 => rfl

/-- Both copies write the encoding of the bytes and a NUL, and what they write can be decoded. -/
theorem to64frombits_spec (input : List UInt8) :
    RopProxy.to64frombits input = Base64.encode input ++ [0] ∧
      RopAsyncSocket.to64frombits input = RopProxy.to64frombits input ∧
      Base64.decode (RopProxy.to64frombits input).dropLast = some input := by
  refine ⟨to64frombits_eq input, asyncSocket_eq_proxy input, ?_⟩
  rw [to64frombits_eq, List.dropLast_concat, Base64.decode_encode]

end Gendo.Client
