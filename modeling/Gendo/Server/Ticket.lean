import Gendo.Client.Aes
import Gendo.Server.Frame
import Gendo.Server.LibTypes
import Mathlib.Data.Fintype.EquivFin
import Mathlib.Data.Finite.Vector

/-!
# User tickets

`lib_ticket_generate` puts a digest of the numbers of a `user_ticket_t` behind them and encrypts
the whole; `lib_ticket_verify` decrypts the ticket in place and compares the digest.
`libTicketVerify_iff` says that it accepts the generated tickets and no others. That no other
ticket decrypts to a structure takes that AES loses nothing the other way round either, which
follows from its blocks being finitely many.

Tickets are written as hexadecimal digits by `lib_encode_str` and read by `lib_ticket_decode_str`.
The function that reads a digit has a value for a character that is none, but nothing looks at it.
-/

namespace Gendo

open Blocks ByteMemory Client

/-! ## Generating and verifying -/

/-- `user_ticket_t`. -/
structure UserTicket where
  userid : UInt32
  lastlogin : UInt32
  random : UInt32
  hash : List.Vector UInt8 20
  deriving DecidableEq

namespace UserTicket

/-- The structure in memory. -/
def bytes (ut : UserTicket) : List UInt8 :=
  leBytes 4 ut.userid.toNat ++ (leBytes 4 ut.lastlogin.toNat ++
    (leBytes 4 ut.random.toNat ++ ut.hash.toList))

@[simp]
theorem length_bytes (ut : UserTicket) : ut.bytes.length = 32 := by
  simp [bytes, List.Vector.toList_length]

/-- Any 32 bytes are a structure. -/
theorem exists_bytes_eq {bs : List UInt8} (h : bs.length = 32) :
    ∃ ut : UserTicket, ut.bytes = bs := by
  refine ⟨⟨.ofNat (leNat (bs.take 4)), .ofNat (leNat ((bs.drop 4).take 4)),
    .ofNat (leNat (((bs.drop 4).drop 4).take 4)), ⟨((bs.drop 4).drop 4).drop 4, by simp [h]⟩⟩, ?_⟩
  rw [bytes, leBytes_ofNat_leNat (by simp [h]), leBytes_ofNat_leNat (by simp [h]),
    leBytes_ofNat_leNat (by simp [h])]
  show bs.take 4 ++ (_ ++ (_ ++ ((bs.drop 4).drop 4).drop 4)) = bs
  rw [List.take_append_drop, List.take_append_drop, List.take_append_drop]

/-- The numbers come first, and the digest last. -/
theorem bytes_eq (ut : UserTicket) : ∃ numbers : List UInt8, numbers.length = 12 ∧
    ∀ hash, UserTicket.bytes { ut with hash := hash } = numbers ++ hash.toList :=
  ⟨leBytes 4 ut.userid.toNat ++ (leBytes 4 ut.lastlogin.toNat ++ leBytes 4 ut.random.toNat),
    by simp, fun hash => by simp [bytes]⟩

end UserTicket

/-- The functions of OpenSSL that tickets are made with: AES with the two keys, and `SHA1`. -/
structure TicketCrypto where
  aes : RopAES
  sha1 : List UInt8 → List.Vector UInt8 20

namespace TicketCrypto

variable (c : TicketCrypto)

/-- `lib_ticket_hash` of the numbers of a structure, to its `hash`. -/
def libTicketHash (ut : UserTicket) : UserTicket := { ut with hash := c.sha1 (ut.bytes.take 12) }

/-- `lib_ticket_encrypt` -/
def libTicketEncrypt (ticket : List UInt8) : List UInt8 := mapBlocks c.aes.aesEncrypt ticket

/-- `lib_ticket_decrypt` -/
def libTicketDecrypt (ticket : List UInt8) : List UInt8 := mapBlocks c.aes.aesDecrypt ticket

/-- `lib_ticket_unhash` of the first `len` bytes. -/
def libTicketUnhash (buf : List UInt8) (len : ℕ) (hash : List UInt8) : Bool :=
  hash.take 20 = (c.sha1 (buf.take len)).toList

/-- `lib_ticket_generate`: what it returns, the ticket, and the structure. -/
def libTicketGenerate (ut : UserTicket) : ℤ × List UInt8 × UserTicket :=
  let ut := c.libTicketHash ut
  (OK, c.libTicketEncrypt ut.bytes, ut)

/-- `lib_ticket_verify`: what it returns, and the buffer. -/
def libTicketVerify (ticket : List UInt8) : ℤ × List UInt8 :=
  let ticket := c.libTicketDecrypt ticket
  if c.libTicketUnhash ticket 12 (ticket.drop 12) then (OK, ticket) else (ERROR, ticket)

/-! ## What is accepted -/

variable {c : TicketCrypto}

/-- What was encrypted is decrypted. -/
theorem decrypt_encrypt (h : c.aes.Inverts) {bs : List UInt8} (hbs : bs.length = 32) :
    c.libTicketDecrypt (c.libTicketEncrypt bs) = bs :=
  mapBlocks_mapBlocks (by decide) h (by rw [hbs]; decide)

/-- What was decrypted is encrypted: blocks are finitely many. -/
theorem encrypt_decrypt (h : c.aes.Inverts) {bs : List UInt8} (hbs : bs.length = 32) :
    c.libTicketEncrypt (c.libTicketDecrypt bs) = bs := by
  have : Finite UInt8 := .of_injective UInt8.toFin fun _ _ => UInt8.toFin_inj.mp
  have hleft : Function.LeftInverse c.aes.aesDecrypt c.aes.aesEncrypt := h
  have hsurjective := Finite.surjective_of_injective hleft.injective
  exact mapBlocks_mapBlocks (by decide) (hleft.rightInverse_of_surjective hsurjective)
    (by rw [hbs]; decide)

/-- The digest of a structure is accepted. -/
theorem unhash_hash (ut : UserTicket) :
    c.libTicketUnhash (c.libTicketHash ut).bytes 12 ((c.libTicketHash ut).bytes.drop 12) := by
  obtain ⟨numbers, hlen, hbytes⟩ := ut.bytes_eq
  have hut := hbytes ut.hash
  rw [libTicketHash, libTicketUnhash, hbytes, List.drop_left' hlen, List.take_left' hlen, hut,
    List.take_left' hlen, List.take_of_length_le (by simp [List.Vector.toList_length])]
  exact decide_eq_true rfl

/-- A structure whose digest is accepted is one with its digest. -/
theorem hash_of_unhash {ut : UserTicket} (h : c.libTicketUnhash ut.bytes 12 (ut.bytes.drop 12)) :
    c.libTicketHash ut = ut := by
  obtain ⟨numbers, hlen, hbytes⟩ := ut.bytes_eq
  have hut := hbytes ut.hash
  rw [libTicketUnhash, decide_eq_true_eq, hut, List.drop_left' hlen, List.take_left' hlen,
    List.take_of_length_le (by simp [List.Vector.toList_length])] at h
  have hhash : c.sha1 (ut.bytes.take 12) = ut.hash := by
    rw [hut, List.take_left' hlen]
    exact Subtype.ext h.symm
  rw [libTicketHash, hhash]

/-- A ticket is accepted exactly if it was generated, and rejected otherwise. The buffer then has
the structure that it was generated from, with its digest. -/
theorem libTicketVerify_iff (c : TicketCrypto) (h : c.aes.Inverts) (ticket : List.Vector UInt8 32) :
    ((c.libTicketVerify ticket.toList).1 = OK ↔
        ∃ ut, (c.libTicketGenerate ut).2.1 = ticket.toList) ∧
      ((c.libTicketVerify ticket.toList).1 = ERROR ↔
        ¬∃ ut, (c.libTicketGenerate ut).2.1 = ticket.toList) ∧
      ∀ ut, (c.libTicketGenerate ut).2.1 = ticket.toList →
        (c.libTicketVerify ticket.toList).2 =
          UserTicket.bytes { ut with hash := (c.libTicketGenerate ut).2.2.hash } := by
  have hgenerated : ∀ ut, (c.libTicketGenerate ut).2.1 = ticket.toList →
      c.libTicketVerify ticket.toList = (OK, (c.libTicketHash ut).bytes) := by
    intro ut hut
    have hdecrypt : c.libTicketDecrypt ticket.toList = (c.libTicketHash ut).bytes := by
      rw [← hut]
      exact decrypt_encrypt h (UserTicket.length_bytes _)
    rw [libTicketVerify, hdecrypt, if_pos (unhash_hash ut)]
  have haccepted : (c.libTicketVerify ticket.toList).1 = OK →
      ∃ ut, (c.libTicketGenerate ut).2.1 = ticket.toList := by
    intro hok
    have hlen : (c.libTicketDecrypt ticket.toList).length = 32 := by
      rw [libTicketDecrypt, length_mapBlocks (by decide) (by simp [List.Vector.toList_length])]
      exact ticket.2
    -- what it decrypts to are the bytes of some structure, and its digest is right
    obtain ⟨ut, hut⟩ := UserTicket.exists_bytes_eq hlen
    rw [libTicketVerify, ← hut] at hok
    split_ifs at hok with hunhash
    · refine ⟨ut, ?_⟩
      show c.libTicketEncrypt (c.libTicketHash ut).bytes = ticket.toList
      rw [hash_of_unhash hunhash, hut]
      exact encrypt_decrypt h ticket.2
    · exact absurd (show ERROR = OK from hok) (by decide)
  refine ⟨⟨haccepted, fun ⟨ut, hut⟩ => ?_⟩, ⟨?_, fun hnone => ?_⟩, fun ut hut => ?_⟩
  · rw [hgenerated ut hut]
  · rintro herror ⟨ut, hut⟩
    rw [hgenerated ut hut] at herror
    exact absurd (show OK = ERROR from herror) (by decide)
  · by_contra hne
    refine hnone (haccepted ?_)
    rw [libTicketVerify] at hne ⊢
    split_ifs at hne ⊢
    · rfl
    · exact absurd rfl hne
  · rw [hgenerated ut hut]
    rfl

/-- AES-128 with `TICKET_AES_CRYPT_STRING` and `SHA1` on the ticket of user 7, whose last login was
at 1300000000 and whose random number is 42. -/
def exampleCrypto : TicketCrypto where
  aes :=
    let key := (Equiv.swap (α := Block)
        ⟨[7, 0, 0, 0, 0, 109, 124, 77, 42, 0, 0, 0, 145, 164, 194, 40], rfl⟩
        ⟨[195, 102, 58, 77, 79, 207, 64, 147, 126, 204, 207, 99, 35, 112, 20, 64], rfl⟩).trans
      (Equiv.swap
        ⟨[80, 246, 255, 112, 90, 60, 29, 0, 161, 134, 187, 55, 56, 12, 102, 22], rfl⟩
        ⟨[215, 114, 71, 41, 96, 209, 246, 9, 214, 185, 173, 103, 129, 53, 145, 214], rfl⟩)
    ⟨key, key.symm⟩
  sha1 _ := ⟨[145, 164, 194, 40, 80, 246, 255, 112, 90, 60, 29, 0, 161, 134, 187, 55, 56, 12, 102,
    22], rfl⟩

/-- The ticket. -/
def exampleTicket : List.Vector UInt8 32 :=
  ⟨[195, 102, 58, 77, 79, 207, 64, 147, 126, 204, 207, 99, 35, 112, 20, 64, 215, 114, 71, 41, 96,
    209, 246, 9, 214, 185, 173, 103, 129, 53, 145, 214], rfl⟩

theorem libTicketVerify_example :
    ((exampleCrypto.libTicketVerify exampleTicket.toList).1 = OK ↔
        ∃ ut, (exampleCrypto.libTicketGenerate ut).2.1 = exampleTicket.toList) ∧
      ((exampleCrypto.libTicketVerify exampleTicket.toList).1 = ERROR ↔
        ¬∃ ut, (exampleCrypto.libTicketGenerate ut).2.1 = exampleTicket.toList) ∧
      ∀ ut, (exampleCrypto.libTicketGenerate ut).2.1 = exampleTicket.toList →
        (exampleCrypto.libTicketVerify exampleTicket.toList).2 =
          UserTicket.bytes { ut with hash := (exampleCrypto.libTicketGenerate ut).2.2.hash } :=
  libTicketVerify_iff exampleCrypto (Equiv.symm_apply_apply _) exampleTicket

end TicketCrypto

/-! ## Tickets as text -/

/-- `HEX_BUF`. -/
def HEX_BUF : List UInt8 := [48, 49, 50, 51, 52, 53, 54, 55, 56, 57, 65, 66, 67, 68, 69, 70]

/-- `cstoi` -/
def cstoi (ch : UInt8) : ℤ :=
  match ch with
  | 48 => 0 | 49 => 1 | 50 => 2 | 51 => 3 | 52 => 4 | 53 => 5 | 54 => 6 | 55 => 7
  | 56 => 8 | 57 => 9 | 65 => 10 | 66 => 11 | 67 => 12 | 68 => 13 | 69 => 14 | 70 => 15
  | _ => -1

/-- A round of the loop in `lib_encode_str`. -/
def encodeByte (hx : UInt8) : List UInt8 :=
  [HEX_BUF.getD ((hx >>> 4) &&& 0b1111).toNat 0, HEX_BUF.getD (hx &&& 0b1111).toNat 0]

/-- `lib_encode_str`, where `none` is the null pointer: what it returns, and what it stored. -/
def libEncodeStr (src : Option (List.Vector UInt8 32)) : ℤ × List UInt8 :=
  match src with
  | none => (-1, [])
  | some src => (0, src.toList.flatMap encodeByte)

/-- A round of the loop in `lib_ticket_decode_str`: the digits are of type `char`, and their sum is
cut off to one. -/
def decodeByte (hh hl : UInt8) : UInt8 :=
  (UInt8.ofInt (cstoi hh)) <<< 4 + UInt8.ofInt (cstoi hl)

/-- The loop in `lib_ticket_decode_str`. -/
def decodeStrLoop : List UInt8 → List UInt8
  | hh :: hl :: top => decodeByte hh hl :: decodeStrLoop top
  | _ => []

/-- `lib_ticket_decode_str`, to a buffer that is given or not. -/
def libTicketDecodeStr (opwd : Option (List.Vector UInt8 64)) (npwd : Bool) : ℤ × List UInt8 :=
  match opwd with
  | none => (ERROR, [])
  | some opwd => if npwd then (OK, decodeStrLoop opwd.toList) else (ERROR, [])

/-- The text is answered with `OK` and decoded if it was encoded, and with `ERROR` if not. -/
structure DecodesStr (text : List.Vector UInt8 64) : Prop where
  ok : (libTicketDecodeStr (some text) true).1 = OK ↔
    ∃ v, (libEncodeStr (some v)).2 = text.toList
  error : (libTicketDecodeStr (some text) true).1 = ERROR ↔
    ¬∃ v, (libEncodeStr (some v)).2 = text.toList
  restored : ∀ v, (libEncodeStr (some v)).2 = text.toList →
    (libTicketDecodeStr (some text) true).2 = v.toList

theorem decodeByte_encodeByte (hx : UInt8) (top : List UInt8) :
    decodeStrLoop (encodeByte hx ++ top) = hx :: decodeStrLoop top := by
  have hall : ∀ n : Fin 256, decodeByte
      (HEX_BUF.getD ((UInt8.ofNat n >>> 4) &&& 0b1111).toNat 0)
      (HEX_BUF.getD (UInt8.ofNat n &&& 0b1111).toNat 0) = UInt8.ofNat n := by
    decide +kernel
  have hbyte := hall ⟨hx.toNat, hx.toNat_lt⟩
  rw [UInt8.ofNat_toNat] at hbyte
  rw [encodeByte, List.cons_append, List.cons_append, List.nil_append, decodeStrLoop, hbyte]

theorem encodeByte_decodeByte : ∀ hh ∈ HEX_BUF, ∀ hl ∈ HEX_BUF,
    encodeByte (decodeByte hh hl) = [hh, hl] := by
  have hall : HEX_BUF.all (fun hh => HEX_BUF.all fun hl =>
      encodeByte (decodeByte hh hl) = [hh, hl]) = true := by
    decide +kernel
  intro hh hhh hl hhl
  exact of_decide_eq_true (List.all_eq_true.1 (List.all_eq_true.1 hall hh hhh) hl hhl)

/-- Every byte is written with two digits. -/
theorem mem_of_mem_encodeByte {hx ch : UInt8} (h : ch ∈ encodeByte hx) : ch ∈ HEX_BUF := by
  have hall : ∀ n : Fin 256, (encodeByte (UInt8.ofNat n)).all (· ∈ HEX_BUF) = true := by
    decide +kernel
  have hbyte := hall ⟨hx.toNat, hx.toNat_lt⟩
  rw [UInt8.ofNat_toNat, List.all_eq_true] at hbyte
  exact of_decide_eq_true (hbyte ch h)

/-- What was encoded is decoded. -/
theorem decodeStrLoop_encode (bs : List UInt8) : decodeStrLoop (bs.flatMap encodeByte) = bs := by
  induction bs with
  | nil => rfl
  | cons b bs ih => rw [List.flatMap_cons, decodeByte_encodeByte, ih]

/-- Digits are the encoding of what is decoded from them. -/
theorem encode_decodeStrLoop {top : List UInt8} {n : ℕ} (hlen : top.length = 2 * n)
    (h : ∀ ch ∈ top, ch ∈ HEX_BUF) :
    (decodeStrLoop top).flatMap encodeByte = top ∧ (decodeStrLoop top).length = n := by
  induction n generalizing top with
  | zero =>
    rw [List.length_eq_zero_iff.mp hlen]
    exact ⟨rfl, rfl⟩
  | succ n ih =>
    obtain ⟨hh, hl, top, rfl⟩ : ∃ hh hl rest, top = hh :: hl :: rest := by
      match top, hlen with
      | hh :: hl :: rest, _ => exact ⟨hh, hl, rest, rfl⟩
    obtain ⟨hhh, hhl, htop⟩ : hh ∈ HEX_BUF ∧ hl ∈ HEX_BUF ∧ ∀ ch ∈ top, ch ∈ HEX_BUF := by
      simpa using h
    simp only [List.length_cons] at hlen
    obtain ⟨hrest, hcount⟩ := ih (by omega) htop
    rw [decodeStrLoop, List.flatMap_cons, List.length_cons, hrest, hcount,
      encodeByte_decodeByte hh hhh hl hhl]
    exact ⟨rfl, rfl⟩

/-- A text was encoded exactly if it is made of the sixteen digits. -/
theorem exists_encode_iff (text : List.Vector UInt8 64) :
    (∃ v, (libEncodeStr (some v)).2 = text.toList) ↔ ∀ ch ∈ text.toList, ch ∈ HEX_BUF := by
  constructor
  · rintro ⟨v, hv⟩ ch hch
    rw [← hv] at hch
    obtain ⟨hx, -, hmem⟩ := List.mem_flatMap.mp hch
    exact mem_of_mem_encodeByte hmem
  · intro h
    obtain ⟨hback, hlen⟩ := encode_decodeStrLoop (n := 32) text.2 h
    exact ⟨⟨_, hlen⟩, hback⟩

/-- Decoding does what it is to do exactly for a text that is made of the sixteen digits. -/
theorem decodesStr_iff (text : List.Vector UInt8 64) :
    DecodesStr text ↔ ∀ ch ∈ text.toList, ch ∈ HEX_BUF := by
  rw [← exists_encode_iff]
  constructor
  · intro h
    exact h.ok.mp rfl
  · intro h
    have hne : ¬OK = ERROR := by decide
    refine ⟨iff_of_true rfl h, iff_of_false hne (not_not_intro h), fun v hv => ?_⟩
    show decodeStrLoop text.toList = v.toList
    rw [← hv]
    exact decodeStrLoop_encode v.toList

/-- A text of blanks is answered with `OK`. -/
theorem not_decodesStr_blanks : ¬∀ text, DecodesStr text := by
  intro h
  have hblanks := (exists_encode_iff ⟨List.replicate 64 32, rfl⟩).mp ((h _).ok.mp rfl)
  exact absurd (hblanks 32 (List.mem_replicate.mpr ⟨by decide, rfl⟩)) (by decide)

end Gendo
