import Gendo.Library.Md5
import Mathlib.Tactic.IntervalCases

/-!
# The digest of a file

`GetFileMD5` reads a file in pieces of 16 KiB, and hands each to the `MD5_Update` of the client's
own copy of MD5. Its context collects words, not bytes: a piece may begin and end inside a word,
and the bytes of a word come in by two macros for its end and two for its beginning.

`getFileMd5_eq` says that the digits are those of the digest of all that was read, however `read`
cuts it.
-/

namespace Gendo.Client

open ByteMemory

/-! ## Blocks -/

/-- The four rounds. -/
inductive Md5Round
  | r0
  | r1
  | r2
  | r3
  deriving DecidableEq, Repr

/-- `F`, `G`, `H` and `I`. -/
def Md5Round.fn (round : Md5Round) (b c d : UInt32) : UInt32 :=
  match round with
  | .r0 => ((c ^^^ d) &&& b) ^^^ d
  | .r1 => ((b ^^^ c) &&& d) ^^^ c
  | .r2 => b ^^^ c ^^^ d
  | .r3 => (~~~d ||| b) ^^^ c

/-- A line of `md5_block_host_order`: its macro, the index of its word, its shift and its
constant. -/
structure Md5Line where
  round : Md5Round
  k : ℕ
  s : ℕ
  t : UInt32
  deriving DecidableEq, Repr

/-- Lines with the same macro. -/
def roundLines (round : Md5Round) (l : List (ℕ × ℕ × UInt32)) : List Md5Line :=
  l.map fun x => ⟨round, x.1, x.2.1, x.2.2⟩

/-- All lines. -/
def md5Lines : List Md5Line :=
    roundLines .r0 [
      (0, 7, 0xd76aa478), (1, 12, 0xe8c7b756), (2, 17, 0x242070db), (3, 22, 0xc1bdceee),
      (4, 7, 0xf57c0faf), (5, 12, 0x4787c62a), (6, 17, 0xa8304613), (7, 22, 0xfd469501),
      (8, 7, 0x698098d8), (9, 12, 0x8b44f7af), (10, 17, 0xffff5bb1), (11, 22, 0x895cd7be),
      (12, 7, 0x6b901122), (13, 12, 0xfd987193), (14, 17, 0xa679438e), (15, 22, 0x49b40821)] ++
    roundLines .r1 [
      (1, 5, 0xf61e2562), (6, 9, 0xc040b340), (11, 14, 0x265e5a51), (0, 20, 0xe9b6c7aa),
      (5, 5, 0xd62f105d), (10, 9, 0x02441453), (15, 14, 0xd8a1e681), (4, 20, 0xe7d3fbc8),
      (9, 5, 0x21e1cde6), (14, 9, 0xc33707d6), (3, 14, 0xf4d50d87), (8, 20, 0x455a14ed),
      (13, 5, 0xa9e3e905), (2, 9, 0xfcefa3f8), (7, 14, 0x676f02d9), (12, 20, 0x8d2a4c8a)] ++
    roundLines .r2 [
      (5, 4, 0xfffa3942), (8, 11, 0x8771f681), (11, 16, 0x6d9d6122), (14, 23, 0xfde5380c),
      (1, 4, 0xa4beea44), (4, 11, 0x4bdecfa9), (7, 16, 0xf6bb4b60), (10, 23, 0xbebfbc70),
      (13, 4, 0x289b7ec6), (0, 11, 0xeaa127fa), (3, 16, 0xd4ef3085), (6, 23, 0x04881d05),
      (9, 4, 0xd9d4d039), (12, 11, 0xe6db99e5), (15, 16, 0x1fa27cf8), (2, 23, 0xc4ac5665)] ++
    roundLines .r3 [
      (0, 6, 0xf4292244), (7, 10, 0x432aff97), (14, 15, 0xab9423a7), (5, 21, 0xfc93a039),
      (12, 6, 0x655b59c3), (3, 10, 0x8f0ccc92), (10, 15, 0xffeff47d), (1, 21, 0x85845dd1),
      (8, 6, 0x6fa87e4f), (15, 10, 0xfe2ce6e0), (6, 15, 0xa3014314), (13, 21, 0x4e0811a1),
      (4, 6, 0xf7537e82), (11, 10, 0xbd3af235), (2, 15, 0x2ad7d2bb), (9, 21, 0xeb86d391)]

/-- `R0` to `R3`. The registers are in the order in which the line has them, and left in that of
the next line. -/
def md5Line (X : ℕ → UInt32) (r : Md5.State) (line : Md5Line) : Md5.State :=
  let a := r.a + (X line.k + line.t + line.round.fn r.b r.c r.d)
  ⟨r.d, Md5.rotateLeft a line.s + r.b, r.b, r.c⟩

/-- `md5_block_host_order` of one block. -/
def md5BlockHostOrder (r : Md5.State) (X : ℕ → UInt32) : Md5.State :=
  let t := md5Lines.foldl (md5Line X) r
  ⟨r.a + t.a, r.b + t.b, r.c + t.c, r.d + t.d⟩

/-- The word that some bytes are. -/
def leWord (bs : List UInt8) : UInt32 := UInt32.ofNat (leNat bs)

/-- A word as it lies in memory. -/
def loadWord (bs : List UInt8) (i : ℕ) : UInt32 := leWord ((bs.drop (4 * i)).take 4)

/-- `md5_block_data_order` of `num` blocks, which is the same function, on the bytes. -/
def md5BlockDataOrder (r : Md5.State) (bs : List UInt8) (num : ℕ) : Md5.State :=
  (List.range num).foldl (fun r k => md5BlockHostOrder r (loadWord (bs.drop (64 * k)))) r

/-! ## Words -/

/-- Bytes that are put into a word, from its byte `n` on. To assign is to put into 0. -/
def putBytes (l : UInt32) (n : ℕ) : List UInt8 → UInt32
  | [] => l
  | b :: bs => putBytes (l ||| b.toUInt32 <<< UInt32.ofNat (8 * n)) (n + 1) bs

/-- `HOST_c2l`. -/
def hostC2l (c : List UInt8) : UInt32 := putBytes 0 0 (c.take 4)

/-- `HOST_p_c2l`: the end of a word that has `n` bytes. The first case assigns. -/
def hostPC2l (c : List UInt8) (l : UInt32) (n : ℕ) : UInt32 :=
  putBytes (if n = 0 then 0 else l) n (c.take (4 - n))

/-- `HOST_p_c2l_p`: `len` bytes more for a word that has `sc`, and does not get its last one. -/
def hostPC2lP (c : List UInt8) (l : UInt32) (sc len : ℕ) : UInt32 :=
  putBytes (if sc = 0 then 0 else l) sc (c.take (min len (3 - sc)))

/-- `HOST_c2l_p`: the first `n` bytes of a word, the last one first. -/
def hostC2lP (c : List UInt8) (n : ℕ) : UInt32 :=
  let byte (i : ℕ) : UInt32 := (c.getD i 0).toUInt32
  match n with
  | 3 => (byte 2 <<< 16 ||| byte 1 <<< 8) ||| byte 0
  | 2 => ((0 : UInt32) ||| byte 1 <<< 8) ||| byte 0
  | 1 => (0 : UInt32) ||| byte 0
  | _ => 0

/-- The loops over `HOST_c2l` that store `n` words, with the bytes that are left. -/
def storeWords (p : ℕ → UInt32) (sw : ℕ) (bs : List UInt8) : ℕ → (ℕ → UInt32) × List UInt8
  | 0 => (p, bs)
  | n + 1 => storeWords (Function.update p sw (hostC2l bs)) (sw + 1) (bs.drop 4) n

/-! ## Contexts -/

/-- `MD5_CTX`. -/
structure Md5Ctx where
  regs : Md5.State
  Nl : UInt32
  Nh : UInt32
  data : ℕ → UInt32
  num : ℕ

namespace Md5Ctx

/-- `MD5_Init`, which leaves `data` as it is. -/
def init (data : ℕ → UInt32) : Md5Ctx :=
  ⟨⟨0x67452301, 0xefcdab89, 0x98badcfe, 0x10325476⟩, 0, 0, data, 0⟩

/-- The number of bits, at the beginning of `MD5_Update`. -/
def count (c : Md5Ctx) (len : ℕ) : Md5Ctx :=
  let l := c.Nl + UInt32.ofNat len <<< 3
  let Nh := if l < c.Nl then c.Nh + 1 else c.Nh
  { c with Nl := l, Nh := Nh + UInt32.ofNat (len >>> 29) }

/-- `MD5_Update` from where there are no bytes in `data`. -/
def updateRest (c : Md5Ctx) (data : List UInt8) : Md5Ctx :=
  let sw := data.length / 64
  let c := if sw > 0 then { c with regs := md5BlockDataOrder c.regs data sw } else c
  let data := data.drop (64 * sw)
  if data.length ≠ 0 then
    let ew := data.length / 4
    let ec := data.length % 4
    let (p, rest) := storeWords c.data 0 data ew
    { c with num := data.length, data := Function.update p ew (hostC2lP rest ec) }
  else c

/-- `MD5_Update` where there are bytes in `data`, and the block is filled. -/
def updateFill (c : Md5Ctx) (data : List UInt8) : Md5Ctx :=
  let sw := c.num / 4
  let sc := c.num % 4
  let p := Function.update c.data sw (hostPC2l data (c.data sw) sc)
  let (p, _) := storeWords p (sw + 1) (data.drop (4 - sc)) (15 - sw)
  { c with regs := md5BlockHostOrder c.regs p, data := p, num := 0 }

/-- `MD5_Update` where there are bytes in `data`, and the block is not filled. -/
def updateMore (c : Md5Ctx) (data : List UInt8) : Md5Ctx :=
  let sw := c.num / 4
  let sc := c.num % 4
  let num := c.num + data.length
  if sc + data.length < 4 then
    { c with
      num := num
      data := Function.update c.data sw (hostPC2lP data (c.data sw) sc data.length) }
  else
    let ew := num / 4
    let ec := num % 4
    let p := Function.update c.data sw (hostPC2l data (c.data sw) sc)
    let (p, rest) := storeWords p (sw + 1) (data.drop (4 - sc)) (ew - (sw + 1))
    { c with num := num, data := if ec ≠ 0 then Function.update p ew (hostC2lP rest ec) else p }

/-- `MD5_Update`. -/
def update (c : Md5Ctx) (data : List UInt8) : Md5Ctx :=
  if data.length = 0 then c
  else
    let c := c.count data.length
    if c.num ≠ 0 then
      if c.num + data.length ≥ 64 then
        (c.updateFill data).updateRest (data.drop (64 - c.num))
      else c.updateMore data
    else c.updateRest data

/-- `MD5_Final` up to the first block, if there are two: the words, and the registers. -/
def finalWords (c : Md5Ctx) : (ℕ → UInt32) × Md5.State :=
  let i := c.num / 4
  let j := c.num % 4
  let l := if j = 0 then 0 else c.data i
  let p := Function.update c.data i (hostPC2l [0x80, 0, 0, 0] l j)
  let i := i + 1
  if i > 14 then
    let p := if i < 16 then Function.update p i 0 else p
    (fun k => if k < 14 then 0 else p k, md5BlockHostOrder c.regs p)
  else (fun k => if i ≤ k ∧ k < 14 then 0 else p k, c.regs)

/-- `MD5_Final`: the digest. -/
def final (c : Md5Ctx) : List UInt8 :=
  let (p, regs) := c.finalWords
  let p := Function.update (Function.update p 14 c.Nl) 15 c.Nh
  let r := md5BlockHostOrder regs p
  leBytes 4 r.a.toNat ++ leBytes 4 r.b.toNat ++ leBytes 4 r.c.toNat ++ leBytes 4 r.d.toNat

end Md5Ctx

/-! ## Files -/

/-- An answer of `read`: some bytes, none at the end of the file, or an error. -/
inductive ReadAnswer
  | data (bs : List UInt8)
  | error
  deriving DecidableEq, Repr

/-- The loop of `GetFileMD5`. -/
def md5File (c : Md5Ctx) : List ReadAnswer → Md5Ctx
  | [] | .error :: _ => c
  | .data bs :: rest => if bs.length = 0 then c else md5File (c.update bs) rest

/-- `GetFileMD5`, where `none` is a file that cannot be opened, and `garbage` is what `data` of the
context holds before. The digits are those of `%02x`. -/
def getFileMd5 (garbage : ℕ → UInt32) (file : Option (List ReadAnswer)) : Option (List UInt8) :=
  file.map fun answers => (md5File (.init garbage) answers).final.flatMap Md5.lowerHex

/-- The bytes that are read up to the end of a file, or an error. -/
def readBytes : List ReadAnswer → List UInt8
  | [] | .error :: _ => []
  | .data bs :: rest => if bs.length = 0 then [] else bs ++ readBytes rest

/-! ## The words of a block -/

theorem toNat_leWord {bs : List UInt8} (h : bs.length ≤ 4) : (leWord bs).toNat = leNat bs := by
  have hlt : leNat bs < 256 ^ 4 := (leNat_lt bs).trans_le (Nat.pow_le_pow_right (by omega) h)
  rw [leWord, UInt32.toNat_ofNat']
  exact Nat.mod_eq_of_lt hlt

/-- A byte put behind `n` others. -/
theorem toNat_or_shift {l : UInt32} {n : ℕ} (hn : n < 4) (hl : l.toNat < 256 ^ n) (b : UInt8) :
    (l ||| b.toUInt32 <<< UInt32.ofNat (8 * n)).toNat = l.toNat + 256 ^ n * b.toNat := by
  have hb : b.toNat < 256 := b.toNat_lt
  have hpow : 256 ^ n = 2 ^ (8 * n) := by simp [pow_mul]
  have hshift : (b.toUInt32 <<< UInt32.ofNat (8 * n)).toNat = 2 ^ (8 * n) * b.toNat := by
    interval_cases n <;> simp [UInt32.toNat_shiftLeft, Nat.shiftLeft_eq] <;> omega
  rw [UInt32.toNat_or, hshift, Nat.or_comm, hpow, Nat.add_comm]
  exact (Nat.two_pow_add_eq_or_of_lt (hpow ▸ hl) b.toNat).symm

/-- Bytes put into a word from where its own end. -/
theorem putBytes_leWord {front bs : List UInt8} (h : front.length + bs.length ≤ 4) :
    putBytes (leWord front) front.length bs = leWord (front ++ bs) := by
  induction bs generalizing front with
  | nil => rw [List.append_nil]; rfl
  | cons b bs ih =>
    rw [List.length_cons] at h
    have hfront : (leWord front).toNat = leNat front := toNat_leWord (by omega)
    have hput : leWord front ||| b.toUInt32 <<< UInt32.ofNat (8 * front.length) =
        leWord (front ++ [b]) := by
      apply UInt32.toNat_inj.mp
      rw [toNat_or_shift (by omega) (hfront ▸ leNat_lt front), hfront,
        toNat_leWord (by simp; omega), leNat_append]
      simp
    have hrest := @ih (front ++ [b]) (by simp; omega)
    rw [putBytes, hput]
    simpa using hrest

theorem hostC2l_eq (bs : List UInt8) : hostC2l bs = loadWord bs 0 :=
  @putBytes_leWord [] _ (by simp)

/-- A word that is in the front. -/
theorem loadWord_append_of_le {front bs : List UInt8} {i : ℕ} (h : 4 * i + 4 ≤ front.length) :
    loadWord (front ++ bs) i = loadWord front i := by
  rw [loadWord, loadWord, List.drop_append_of_le_length (by omega),
    List.take_append_of_le_length (by simp; omega)]

/-- A word behind the one in which the front ends. -/
theorem loadWord_append_of_ge {front bs : List UInt8} {i : ℕ} (h : front.length < 4 * i) :
    loadWord (front ++ bs) i =
      loadWord (bs.drop (4 - front.length % 4)) (i - (front.length / 4 + 1)) := by
  have hoff : 4 * i - front.length = 4 - front.length % 4 + 4 * (i - (front.length / 4 + 1)) := by
    omega
  rw [loadWord, loadWord, List.drop_append, List.drop_eq_nil_of_le h.le, List.nil_append, hoff,
    List.drop_drop]

/-- The word in which the front ends. -/
theorem loadWord_append_last (front bs : List UInt8) :
    loadWord (front ++ bs) (front.length / 4) =
      leWord (front.drop (4 * (front.length / 4)) ++ bs.take (4 - front.length % 4)) := by
  have hlen : (front.drop (4 * (front.length / 4))).length = front.length % 4 := by
    rw [List.length_drop]
    omega
  rw [loadWord, List.drop_append_of_le_length (by omega), List.take_append, hlen,
    List.take_of_length_le (by omega)]

/-- Bytes put into the word in which the front ends. Where the front ends with a word, the macros
assign, and do not look at the old one. -/
theorem putBytes_last {front bs : List UInt8} {l : UInt32}
    (hl : front.length % 4 ≠ 0 → l = loadWord front (front.length / 4))
    (hbs : front.length % 4 + bs.length ≤ 4) :
    putBytes (if front.length % 4 = 0 then 0 else l) (front.length % 4) bs =
      loadWord (front ++ bs) (front.length / 4) := by
  have hlen : (front.drop (4 * (front.length / 4))).length = front.length % 4 := by
    rw [List.length_drop]
    omega
  have hold : (if front.length % 4 = 0 then 0 else l) =
      leWord (front.drop (4 * (front.length / 4))) := by
    split
    · next hzero =>
      rw [List.length_eq_zero_iff.mp (hlen.trans hzero)]
      rfl
    · next hne =>
      rw [hl hne, loadWord, List.take_of_length_le (by omega)]
  have hput := @putBytes_leWord (front.drop (4 * (front.length / 4))) bs (by omega)
  rw [hlen] at hput
  rw [hold, hput, loadWord_append_last, List.take_of_length_le (by omega)]

theorem hostPC2l_eq {front : List UInt8} {l : UInt32}
    (hl : front.length % 4 ≠ 0 → l = loadWord front (front.length / 4)) (bs : List UInt8) :
    hostPC2l bs l (front.length % 4) = loadWord (front ++ bs) (front.length / 4) := by
  rw [hostPC2l, putBytes_last hl (by simp; omega), loadWord_append_last, loadWord_append_last,
    List.take_take, Nat.min_self]

theorem hostPC2lP_eq {front bs : List UInt8} {l : UInt32}
    (hl : front.length % 4 ≠ 0 → l = loadWord front (front.length / 4))
    (hbs : front.length % 4 + bs.length < 4) :
    hostPC2lP bs l (front.length % 4) bs.length = loadWord (front ++ bs) (front.length / 4) := by
  rw [hostPC2lP, Nat.min_eq_left (by omega), List.take_length, putBytes_last hl (by omega)]

/-- The first bytes of a word come out the same in the other order. -/
theorem hostC2lP_eq {bs : List UInt8} (h : bs.length < 4) : hostC2lP bs bs.length = leWord bs := by
  have hput : putBytes 0 0 bs = leWord bs := @putBytes_leWord [] bs (by simp; omega)
  rw [← hput]
  rcases bs with _ | ⟨b₀, _ | ⟨b₁, _ | ⟨b₂, _ | ⟨b₃, bs⟩⟩⟩⟩
  · rfl
  · simp [hostC2lP, putBytes]
  · simp [hostC2lP, putBytes, UInt32.or_comm]
  · simp only [hostC2lP, putBytes, List.length_cons, List.length_nil]
    simp
    ac_rfl
  · simp at h
    omega

/-- The loops store the words of the bytes from a word on, and leave the others. -/
theorem storeWords_eq (p : ℕ → UInt32) (sw : ℕ) (bs : List UInt8) (n : ℕ) :
    (storeWords p sw bs n).2 = bs.drop (4 * n) ∧
      ∀ i, (storeWords p sw bs n).1 i =
        if sw ≤ i ∧ i < sw + n then loadWord bs (i - sw) else p i := by
  induction n generalizing p sw bs with
  | zero => simp [storeWords]
  | succ n ih =>
    obtain ⟨hrest, hwords⟩ := ih (Function.update p sw (hostC2l bs)) (sw + 1) (bs.drop 4)
    refine ⟨?_, fun i => ?_⟩
    · rw [storeWords, hrest, List.drop_drop]
      congr 1
      omega
    · rw [storeWords, hwords]
      rcases Nat.lt_trichotomy i sw with hlt | rfl | hgt
      · rw [if_neg (by omega), if_neg (by omega), Function.update_of_ne (by omega)]
      · rw [if_neg (by omega), if_pos (by omega), Function.update_self, Nat.sub_self, hostC2l_eq]
      · have hoff : 4 + 4 * (i - (sw + 1)) = 4 * (i - sw) := by omega
        have hword : loadWord (bs.drop 4) (i - (sw + 1)) = loadWord bs (i - sw) := by
          rw [loadWord, loadWord, List.drop_drop, hoff]
        rw [hword, Function.update_of_ne (by omega)]
        apply if_congr (by omega) rfl rfl

/-! ## Blocks -/

/-- The round of a step, and its word. -/
def stepRound (i : ℕ) : Md5Round × ℕ :=
  match i / 16 with
  | 0 => (.r0, i)
  | 1 => (.r1, (5 * i + 1) % 16)
  | 2 => (.r2, (3 * i + 5) % 16)
  | _ => (.r3, 7 * i % 16)

/-- The line of a step. -/
def stepLine (i : ℕ) : Md5Line :=
  ⟨(stepRound i).1, (stepRound i).2, (Md5.shifts.getD (i / 16) []).getD (i % 4) 0,
    Md5.sines.getD i 0⟩

theorem md5Lines_eq : md5Lines = (List.range 64).map stepLine := by decide

/-- The cheaper form of `F`. -/
theorem fn_r0 (b c d : UInt32) : Md5Round.fn .r0 b c d = b &&& c ||| ~~~b &&& d := by
  apply UInt32.toBitVec_inj.mp
  ext i hi
  simp [Md5Round.fn]
  cases b.toBitVec[i] <;> cases c.toBitVec[i] <;> cases d.toBitVec[i] <;> rfl

/-- The cheaper form of `G`. -/
theorem fn_r1 (b c d : UInt32) : Md5Round.fn .r1 b c d = d &&& b ||| ~~~d &&& c := by
  apply UInt32.toBitVec_inj.mp
  ext i hi
  simp [Md5Round.fn]
  cases b.toBitVec[i] <;> cases c.toBitVec[i] <;> cases d.toBitVec[i] <;> rfl

/-- What a line mixes, and its word. -/
theorem mix_eq (s : Md5.State) (i : ℕ) :
    Md5.mix s i = ((stepRound i).1.fn s.b s.c s.d, (stepRound i).2) := by
  unfold stepRound Md5.mix
  rcases i / 16 with _ | _ | _ | n
  · exact congrArg₂ Prod.mk (fn_r0 _ _ _).symm rfl
  · exact congrArg₂ Prod.mk (fn_r1 _ _ _).symm rfl
  · rfl
  · refine congrArg₂ Prod.mk ?_ rfl
    rw [UInt32.xor_comm, UInt32.or_comm]
    rfl

/-- The words are used up to the last of the block. -/
theorem stepRound_lt {i : ℕ} (h : i < 64) : (stepRound i).2 < 16 := by
  unfold stepRound
  split <;> dsimp only <;> omega

/-- Each line is a step. -/
theorem md5Line_stepLine {X : ℕ → UInt32} {block : List UInt8}
    (h : ∀ k < 16, X k = loadWord block k) (s : Md5.State) {i : ℕ} (hi : i < 64) :
    md5Line X s (stepLine i) = Md5.step (Md5.blockWords block) s i := by
  have hword : (Md5.blockWords block).getD (stepRound i).2 0 = X (stepRound i).2 := by
    rw [h _ (stepRound_lt hi)]
    simp [Md5.blockWords, stepRound_lt hi, loadWord, leWord]
  rw [Md5.step, mix_eq]
  dsimp only
  rw [hword, UInt32.add_comm s.b]
  simp only [md5Line, stepLine]
  congr 3
  ac_rfl

/-- `md5_block_host_order` is the compression of the block whose words it has. -/
theorem md5BlockHostOrder_eq {X : ℕ → UInt32} {block : List UInt8}
    (h : ∀ k < 16, X k = loadWord block k) (r : Md5.State) :
    md5BlockHostOrder r X = Md5.compress r block := by
  have hfold : md5Lines.foldl (md5Line X) r =
      (List.range 64).foldl (Md5.step (Md5.blockWords block)) r := by
    rw [md5Lines_eq, List.foldl_map]
    exact List.foldl_ext _ _ r fun s i hi => md5Line_stepLine h s (List.mem_range.mp hi)
  rw [md5BlockHostOrder, hfold]
  rfl

/-- A block out of the bytes themselves. -/
theorem md5BlockHostOrder_loadWord (r : Md5.State) {bs : List UInt8} (h : 64 ≤ bs.length) :
    md5BlockHostOrder r (loadWord bs) = Md5.compress r (bs.take 64) := by
  apply md5BlockHostOrder_eq
  intro k hk
  conv_lhs => rw [← List.take_append_drop 64 bs]
  apply loadWord_append_of_le
  rw [List.length_take]
  omega

/-- All blocks out of the bytes. -/
theorem md5BlockDataOrder_eq (r : Md5.State) (len num : ℕ) {bs : List UInt8}
    (h : 64 * num ≤ bs.length) :
    Md5.update ⟨r, len, []⟩ (bs.take (64 * num)) =
      ⟨md5BlockDataOrder r bs num, len + 64 * num, []⟩ := by
  induction num with
  | zero => simp [Md5.update, md5BlockDataOrder]
  | succ num ih =>
    have hlast : 64 ≤ (bs.drop (64 * num)).length := by
      rw [List.length_drop]
      omega
    have hlen : ((bs.drop (64 * num)).take 64).length = 64 := by
      rw [List.length_take, Nat.min_eq_left hlast]
    have hne : (bs.drop (64 * num)).take 64 ≠ [] := by
      apply List.ne_nil_of_length_pos
      omega
    rw [Nat.mul_succ, List.take_add, Md5.update_append, ih (by omega),
      Md5.update_of_eq hne (by simpa using hlen), hlen, List.nil_append, Nat.add_assoc,
      md5BlockDataOrder, md5BlockDataOrder, List.range_succ, List.foldl_append, List.foldl_cons,
      List.foldl_nil, md5BlockHostOrder_loadWord _ hlast]

/-! ## Contexts -/

namespace Md5Ctx

/-- The registers and the words are those of a message: the words up to the last byte in the buffer
are those of the buffer, and the others are what they are. -/
structure Holds (c : Md5Ctx) (ctx : Md5.Ctx) : Prop where
  regs : c.regs = ctx.state
  num : c.num = ctx.buffer.length
  lt : ctx.buffer.length < 64
  data : ∀ i, 4 * i < ctx.buffer.length → c.data i = loadWord ctx.buffer i

/-- The context is that of a message. -/
structure Follows (c : Md5Ctx) (ctx : Md5.Ctx) : Prop extends Holds c ctx where
  bits : c.Nl.toNat + 2 ^ 32 * c.Nh.toNat = 8 * ctx.length % 2 ^ 64

theorem follows_init (data : ℕ → UInt32) : (init data).Follows Md5.init :=
  ⟨⟨rfl, rfl, by decide, fun i hi => absurd hi (Nat.not_lt_zero _)⟩, rfl⟩

/-- The two words count together. -/
theorem bits_count (c : Md5Ctx) (len : ℕ) :
    (c.count len).Nl.toNat + 2 ^ 32 * (c.count len).Nh.toNat =
      (c.Nl.toNat + 2 ^ 32 * c.Nh.toNat + 8 * len) % 2 ^ 64 := by
  have hNl := c.Nl.toNat_lt
  have hNh := c.Nh.toNat_lt
  have hlow : (UInt32.ofNat len <<< 3).toNat = 8 * len % 2 ^ 32 := by
    simp [UInt32.toNat_shiftLeft, Nat.shiftLeft_eq]
    omega
  have hhigh : (UInt32.ofNat (len >>> 29)).toNat = len / 2 ^ 29 % 2 ^ 32 := by
    simp [Nat.shiftRight_eq_div_pow]
  have hsum : (c.Nl + UInt32.ofNat len <<< 3).toNat = (c.Nl.toNat + 8 * len % 2 ^ 32) % 2 ^ 32 := by
    rw [UInt32.toNat_add, hlow]
  simp only [count]
  split
  · next hlt =>
    rw [UInt32.lt_iff_toNat_lt, hsum] at hlt
    rw [hsum, UInt32.toNat_add, UInt32.toNat_add, hhigh, UInt32.toNat_one]
    omega
  · next hge =>
    rw [UInt32.lt_iff_toNat_lt, hsum] at hge
    rw [hsum, UInt32.toNat_add, hhigh]
    omega

namespace Holds

variable {c : Md5Ctx} {ctx : Md5.Ctx} {data : List UInt8}

/-- What a macro is given as the word in which the buffer ends. -/
theorem last_word (h : c.Holds ctx) (hne : ctx.buffer.length % 4 ≠ 0) :
    c.data (c.num / 4) = loadWord ctx.buffer (ctx.buffer.length / 4) := by
  rw [h.num]
  apply h.data
  omega

/-- The words of the buffer and of more bytes: the word in which the buffer ends, some whole ones
behind it, and those in the buffer. -/
theorem words (h : c.Holds ctx) (data : List UInt8) (n : ℕ) {i : ℕ}
    (hi : i < ctx.buffer.length / 4 + 1 + n) :
    (storeWords
      (Function.update c.data (c.num / 4) (hostPC2l data (c.data (c.num / 4)) (c.num % 4)))
      (c.num / 4 + 1) (data.drop (4 - c.num % 4)) n).1 i = loadWord (ctx.buffer ++ data) i := by
  have hlast := hostPC2l_eq h.last_word data
  rw [(storeWords_eq _ _ _ n).2, h.num]
  rw [h.num] at hlast
  rcases Nat.lt_trichotomy i (ctx.buffer.length / 4) with hlt | rfl | hgt
  · rw [if_neg (by omega), Function.update_of_ne (by omega), h.data i (by omega),
      loadWord_append_of_le (by omega)]
  · rw [if_neg (by omega), Function.update_self, hlast]
  · rw [if_pos (by omega), loadWord_append_of_ge (by omega)]

/-- The first bytes of the last word, behind the loops. -/
theorem hostC2lP_drop {bs : List UInt8} {n : ℕ} (hn : n = bs.length / 4) :
    hostC2lP (bs.drop (4 * n)) (bs.length % 4) = loadWord bs n := by
  have hlen : (bs.drop (4 * n)).length = bs.length % 4 := by
    rw [List.length_drop]
    omega
  rw [← hlen, hostC2lP_eq (by omega), loadWord, List.take_of_length_le (by omega)]

/-- `MD5_Update` from where the buffer is empty: the blocks, and then the words. -/
theorem updateRest (h : c.Holds ctx) (hbuffer : ctx.buffer = []) :
    (c.updateRest data).Holds (Md5.update ctx data) := by
  obtain ⟨s, len, buffer⟩ := ctx
  obtain rfl : buffer = [] := hbuffer
  have hs : c.regs = s := h.regs
  have hregs : (if data.length / 64 > 0 then
      { c with regs := md5BlockDataOrder c.regs data (data.length / 64) } else c) =
      { c with regs := md5BlockDataOrder s data (data.length / 64) } := by
    rw [hs]
    split
    · rfl
    · next hzero =>
      rw [Nat.eq_zero_of_not_pos hzero, md5BlockDataOrder, List.range_zero, List.foldl_nil, ← hs]
  have hlt : (data.drop (64 * (data.length / 64))).length < 64 := by
    rw [List.length_drop]
    omega
  have hctx : Md5.update ⟨s, len, []⟩ data =
      ⟨md5BlockDataOrder s data (data.length / 64), len + data.length,
        data.drop (64 * (data.length / 64))⟩ := by
    conv_lhs => rw [← List.take_append_drop (64 * (data.length / 64)) data]
    rw [Md5.update_append, md5BlockDataOrder_eq _ _ _ (Nat.mul_div_le _ _),
      Md5.update_of_lt (by simpa using hlt), List.length_drop, Nat.add_assoc,
      Nat.add_sub_cancel' (Nat.mul_div_le _ _), List.nil_append]
  rw [hctx, Md5Ctx.updateRest, hregs]
  generalize md5BlockDataOrder s data (data.length / 64) = regs at *
  generalize data.drop (64 * (data.length / 64)) = rest at *
  by_cases hrest : rest.length ≠ 0
  · rw [if_pos hrest]
    obtain ⟨hdrop, hwords⟩ := storeWords_eq c.data 0 rest (rest.length / 4)
    refine ⟨rfl, rfl, hlt, fun i hi => ?_⟩
    rcases Nat.lt_or_ge i (rest.length / 4) with hi' | hi'
    · simp only
      rw [Function.update_of_ne (by omega), hwords, if_pos (by omega), Nat.sub_zero]
    · obtain rfl : i = rest.length / 4 := by
        simp only at hi
        omega
      simp only
      rw [Function.update_self, hdrop, hostC2lP_drop rfl]
  · rw [if_neg hrest]
    obtain rfl : rest = [] := by simpa using hrest
    exact ⟨rfl, h.num, hlt, fun i hi => absurd hi (Nat.not_lt_zero _)⟩

/-- `MD5_Update` of what fills the block. -/
theorem updateFill (h : c.Holds ctx) (hfill : 64 ≤ ctx.buffer.length + data.length) :
    (c.updateFill data).Holds (Md5.update ctx (data.take (64 - ctx.buffer.length))) := by
  have hlt := h.lt
  have hlen : (data.take (64 - ctx.buffer.length)).length = 64 - ctx.buffer.length := by
    rw [List.length_take]
    omega
  have hne : data.take (64 - ctx.buffer.length) ≠ [] := by
    apply List.ne_nil_of_length_pos
    omega
  rw [Md5.update_of_eq hne (by omega)]
  refine ⟨?_, rfl, by simp, fun i hi => absurd hi (Nat.not_lt_zero _)⟩
  rw [Md5Ctx.updateFill, h.regs]
  apply md5BlockHostOrder_eq
  intro k hk
  have hnum := h.num
  rw [h.words data _ (by omega)]
  conv_lhs => rw [← List.take_append_drop (64 - ctx.buffer.length) data, ← List.append_assoc]
  apply loadWord_append_of_le
  rw [List.length_append, hlen]
  omega

/-- `MD5_Update` of what does not fill the block. -/
theorem updateMore (h : c.Holds ctx) (hlt : ctx.buffer.length + data.length < 64) :
    (c.updateMore data).Holds (Md5.update ctx data) := by
  have hnum := h.num
  rw [Md5.update_of_lt hlt, Md5Ctx.updateMore]
  split
  · next hsmall =>
    refine ⟨h.regs, by simp [hnum], by simpa using hlt, fun i hi => ?_⟩
    rw [List.length_append] at hi
    have hlast := h.last_word
    rw [hnum] at hlast hsmall
    simp only [hnum]
    rcases Nat.lt_or_ge i (ctx.buffer.length / 4) with hi' | hi'
    · rw [Function.update_of_ne (by omega), h.data i (by omega), loadWord_append_of_le (by omega)]
    · obtain rfl : i = ctx.buffer.length / 4 := by omega
      rw [Function.update_self, hostPC2lP_eq hlast hsmall]
  · next hbig =>
    refine ⟨h.regs, by simp [hnum], by simpa using hlt, fun i hi => ?_⟩
    rw [List.length_append] at hi
    simp only
    rcases Nat.lt_or_ge i ((c.num + data.length) / 4) with hi' | hi'
    · have hword := h.words data ((c.num + data.length) / 4 - (c.num / 4 + 1)) (i := i) (by omega)
      split
      · rw [Function.update_of_ne (by omega), hword]
      · exact hword
    · -- the bytes behind the loops, which are there because the word is in the buffer
      obtain rfl : i = (c.num + data.length) / 4 := by omega
      have hlen : (data.drop (4 - c.num % 4)).length = data.length - (4 - c.num % 4) :=
        List.length_drop
      have hec : (c.num + data.length) % 4 = (data.drop (4 - c.num % 4)).length % 4 := by omega
      rw [if_pos (by omega), Function.update_self, (storeWords_eq _ _ _ _).1, hec,
        hostC2lP_drop (by omega), loadWord_append_of_ge (by omega), hnum]

end Holds

theorem holds_count (c : Md5Ctx) (ctx : Md5.Ctx) (len : ℕ) :
    (c.count len).Holds ctx ↔ c.Holds ctx :=
  ⟨fun h => ⟨h.regs, h.num, h.lt, h.data⟩, fun h => ⟨h.regs, h.num, h.lt, h.data⟩⟩

/-- Only the count changes the number of bits. -/
theorem bits_updateRest (c : Md5Ctx) (data : List UInt8) :
    (c.updateRest data).Nl = c.Nl ∧ (c.updateRest data).Nh = c.Nh := by
  rw [updateRest]
  split <;> split <;> exact ⟨rfl, rfl⟩

theorem bits_updateFill (c : Md5Ctx) (data : List UInt8) :
    (c.updateFill data).Nl = c.Nl ∧ (c.updateFill data).Nh = c.Nh := by
  obtain ⟨regs, Nl, Nh, words, num⟩ := c
  exact ⟨rfl, rfl⟩

theorem bits_updateMore (c : Md5Ctx) (data : List UInt8) :
    (c.updateMore data).Nl = c.Nl ∧ (c.updateMore data).Nh = c.Nh := by
  rw [updateMore]
  split <;> exact ⟨rfl, rfl⟩

/-- `MD5_Update` takes any piece as the digest does. -/
theorem Follows.update {c : Md5Ctx} {ctx : Md5.Ctx} (h : c.Follows ctx) (data : List UInt8) :
    (c.update data).Follows (Md5.update ctx data) := by
  rw [Md5Ctx.update]
  split
  · next hzero =>
    rw [List.length_eq_zero_iff.mp hzero]
    exact h
  · have hcount : (c.count data.length).Holds ctx := (holds_count c ctx _).mpr h.toHolds
    have hbits : (c.count data.length).Nl.toNat + 2 ^ 32 * (c.count data.length).Nh.toNat =
        8 * (Md5.update ctx data).length % 2 ^ 64 := by
      rw [bits_count, h.bits, Md5.length_update]
      omega
    generalize c.count data.length = c' at *
    have hnum := hcount.num
    dsimp only
    split
    · split
      · next hge =>
        have hfill : 64 ≤ ctx.buffer.length + data.length := by omega
        have hfirst := hcount.updateFill hfill
        have hempty : (Md5.update ctx (data.take (64 - ctx.buffer.length))).buffer = [] := by
          apply List.eq_nil_of_length_eq_zero
          rw [← hfirst.num]
          rfl
        have hrest := @Holds.updateRest _ _ (data.drop (64 - ctx.buffer.length)) hfirst hempty
        rw [← Md5.update_append, List.take_append_drop, ← hnum] at hrest
        obtain ⟨hNl, hNh⟩ := bits_updateRest (c'.updateFill data) (data.drop (64 - c'.num))
        obtain ⟨hNl', hNh'⟩ := bits_updateFill c' data
        exact ⟨hrest, by rw [hNl, hNh, hNl', hNh']; exact hbits⟩
      · obtain ⟨hNl, hNh⟩ := bits_updateMore c' data
        exact ⟨hcount.updateMore (by omega), by rw [hNl, hNh]; exact hbits⟩
    · next hnum' =>
      have hempty : ctx.buffer = [] := by
        apply List.eq_nil_of_length_eq_zero
        omega
      obtain ⟨hNl, hNh⟩ := bits_updateRest c' data
      exact ⟨hcount.updateRest hempty, by rw [hNl, hNh]; exact hbits⟩

/-! ## The digest -/

theorem loadWord_of_ge {bs : List UInt8} {i : ℕ} (h : bs.length ≤ 4 * i) : loadWord bs i = 0 := by
  rw [loadWord, List.drop_eq_nil_of_le h]
  rfl

/-- Zeros behind some bytes do not change a word. -/
theorem loadWord_append_zeros (bs : List UInt8) (n i : ℕ) :
    loadWord (bs ++ List.replicate n 0) i = loadWord bs i := by
  rw [loadWord, loadWord, leWord, leWord, List.drop_append, List.take_append, List.drop_replicate,
    List.take_replicate, leNat_append_replicate]

/-- The word in which the message ends gets the bit. -/
theorem Holds.last_padded {c : Md5Ctx} {ctx : Md5.Ctx} (h : c.Holds ctx) :
    hostPC2l [0x80, 0, 0, 0] (if c.num % 4 = 0 then 0 else c.data (c.num / 4)) (c.num % 4) =
      loadWord (ctx.buffer ++ [0x80]) (ctx.buffer.length / 4) := by
  have hl : ctx.buffer.length % 4 ≠ 0 →
      (if c.num % 4 = 0 then 0 else c.data (c.num / 4)) =
        loadWord ctx.buffer (ctx.buffer.length / 4) := by
    intro hne
    rw [if_neg (h.num ▸ hne), h.last_word hne]
  have hzeros : ctx.buffer ++ [0x80, 0, 0, 0] = ctx.buffer ++ [0x80] ++ List.replicate 3 0 := by
    simp
  rw [← loadWord_append_zeros _ 3, ← hzeros, ← hostPC2l_eq hl, h.num]

/-- The words up to the one in which the message ends. -/
theorem Holds.padded_words {c : Md5Ctx} {ctx : Md5.Ctx} (h : c.Holds ctx) {k : ℕ}
    (hk : k ≤ ctx.buffer.length / 4) :
    Function.update c.data (c.num / 4)
        (loadWord (ctx.buffer ++ [0x80]) (ctx.buffer.length / 4)) k =
      loadWord (ctx.buffer ++ [0x80]) k := by
  rw [h.num]
  rcases Nat.lt_or_eq_of_le hk with hlt | rfl
  · rw [Function.update_of_ne (by omega), h.data k (by omega), loadWord_append_of_le (by omega)]
  · rw [Function.update_self]

/-- The words before those of the length, if the bit and the length are in one block. -/
theorem Holds.finalWords_of_lt {c : Md5Ctx} {ctx : Md5.Ctx} (h : c.Holds ctx)
    (hlt : ctx.buffer.length < 56) :
    c.finalWords.2 = ctx.state ∧
      ∀ k < 14, c.finalWords.1 k = loadWord (ctx.buffer ++ [0x80]) k := by
  have hnum := h.num
  rw [finalWords, h.last_padded, if_neg (by omega)]
  refine ⟨h.regs, fun k hk => ?_⟩
  dsimp only
  split
  · rw [loadWord_of_ge (by simp; omega)]
  · exact h.padded_words (by omega)

/-- The first of two blocks, if they are not. -/
theorem Holds.finalWords_of_ge {c : Md5Ctx} {ctx : Md5.Ctx} (h : c.Holds ctx)
    (hge : 56 ≤ ctx.buffer.length) :
    c.finalWords.2 = Md5.compress ctx.state
        (ctx.buffer ++ [0x80] ++ List.replicate (63 - ctx.buffer.length) 0) ∧
      ∀ k < 14, c.finalWords.1 k = loadWord [] k := by
  have hnum := h.num
  have hlt := h.lt
  rw [finalWords, h.last_padded, if_pos (by omega)]
  refine ⟨?_, fun k hk => ?_⟩
  · rw [h.regs]
    apply md5BlockHostOrder_eq
    intro k hk
    rw [loadWord_append_zeros, hnum]
    -- the word behind the one with the bit, if there is one, is the last
    rcases Nat.lt_or_ge (ctx.buffer.length / 4) k with hgt | hle
    · obtain rfl : k = ctx.buffer.length / 4 + 1 := by omega
      rw [if_pos (by omega), Function.update_self, loadWord_of_ge (by simp; omega)]
    · rw [← h.padded_words hle, hnum]
      split
      · rw [Function.update_of_ne (by omega)]
      · rfl
  · dsimp only
    rw [if_pos hk, loadWord_of_ge (by simp)]

theorem loadWord_append_word {front word : List UInt8} {i : ℕ} (hfront : front.length = 4 * i)
    (hword : word.length = 4) (bs : List UInt8) :
    loadWord (front ++ (word ++ bs)) i = leWord word := by
  rw [loadWord, ← hfront, List.drop_left, List.take_left' hword]

/-- A number of four bytes is its word. -/
theorem leWord_leBytes (n : ℕ) : leWord (leBytes 4 n) = UInt32.ofNat n := by
  apply UInt32.toNat_inj.mp
  rw [toNat_leWord (by simp), leNat_leBytes, UInt32.toNat_ofNat']
  rfl

/-- The last block: words up to those of the length, and the two words of the length. -/
theorem lastBlock_words {p : ℕ → UInt32} {front : List UInt8} {Nl Nh : UInt32} {bits : ℕ}
    (hlen : front.length ≤ 56) (hp : ∀ k < 14, p k = loadWord front k)
    (hbits : Nl.toNat + 2 ^ 32 * Nh.toNat = bits % 2 ^ 64) {k : ℕ} (hk : k < 16) :
    Function.update (Function.update p 14 Nl) 15 Nh k =
      loadWord (front ++ List.replicate (56 - front.length) 0 ++ leBytes 8 bits) k := by
  have hzeros : (front ++ List.replicate (56 - front.length) 0).length = 56 := by
    simp
    omega
  have hNl : UInt32.ofNat bits = Nl := by
    have hlt := Nl.toNat_lt
    apply UInt32.toNat_inj.mp
    rw [UInt32.toNat_ofNat']
    omega
  have hNh : UInt32.ofNat (bits / 256 ^ 4) = Nh := by
    have hlt := Nl.toNat_lt
    have hlt' := Nh.toNat_lt
    apply UInt32.toNat_inj.mp
    rw [UInt32.toNat_ofNat']
    omega
  rcases Nat.lt_trichotomy k 14 with hlt | rfl | hgt
  · rw [Function.update_of_ne (by omega), Function.update_of_ne (by omega), hp k hlt,
      loadWord_append_of_le (by omega), loadWord_append_zeros]
  · rw [Function.update_of_ne (by omega), Function.update_self, leBytes_add 4 4,
      loadWord_append_word (by omega) (by simp), leWord_leBytes, hNl]
  · obtain rfl : k = 15 := by omega
    have hword := @loadWord_append_word
      (front ++ List.replicate (56 - front.length) 0 ++ leBytes 4 bits)
      (leBytes 4 (bits / 256 ^ 4)) 15
      (by rw [List.length_append, hzeros, length_leBytes]) (by simp) []
    rw [Function.update_self, leBytes_add 4 4, ← hNh, ← leWord_leBytes, ← hword, List.append_nil,
      List.append_assoc (front ++ _)]

/-- The blocks that `MD5_Final` makes are those of the padding. -/
theorem Follows.final {c : Md5Ctx} {ctx : Md5.Ctx} (h : c.Follows ctx) :
    c.final = (Md5.final ctx).1.toList := by
  obtain ⟨front, hlen, hwords, hstate⟩ : ∃ front : List UInt8, front.length ≤ 56 ∧
      (∀ k < 14, c.finalWords.1 k = loadWord front k) ∧
      (Md5.update ctx (Md5.padding ctx)).state = Md5.compress c.finalWords.2
        (front ++ List.replicate (56 - front.length) 0 ++ leBytes 8 (8 * ctx.length)) := by
    have hlt := h.lt
    rcases Nat.lt_or_ge ctx.buffer.length 56 with hone | htwo
    · obtain ⟨hregs, hwords⟩ := h.finalWords_of_lt hone
      refine ⟨ctx.buffer ++ [0x80], by simp; omega, hwords, ?_⟩
      rw [Md5.update_of_eq (by simp [Md5.padding]) (by simp [Md5.padding]; omega), hregs,
        Md5.padding]
      have hpad : (119 - ctx.buffer.length) % 64 = 56 - (ctx.buffer ++ [0x80]).length := by
        simp
        omega
      rw [hpad]
      simp
    · obtain ⟨hregs, hwords⟩ := h.finalWords_of_ge htwo
      refine ⟨[], by simp, hwords, ?_⟩
      -- the zeros are those that fill the block, and those before the length in the next one
      have hpad : (119 - ctx.buffer.length) % 64 = 63 - ctx.buffer.length + 56 := by omega
      have hsplit : Md5.padding ctx = (0x80 :: List.replicate (63 - ctx.buffer.length) 0) ++
          (List.replicate 56 0 ++ leBytes 8 (8 * ctx.length)) := by
        rw [Md5.padding, hpad, List.replicate_add, List.cons_append, List.append_assoc]
      have hfirst := @Md5.update_of_eq ctx (0x80 :: List.replicate (63 - ctx.buffer.length) 0)
        (by simp) (by simp; omega)
      rw [hsplit, Md5.update_append, hfirst, Md5.update_of_eq (by simp) (by simp), hregs]
      simp
  rw [Md5Ctx.final]
  dsimp only
  rw [md5BlockHostOrder_eq (fun k hk => lastBlock_words hlen hwords h.bits hk), ← hstate]
  rfl

end Md5Ctx

/-! ## Files -/

/-- The loop takes what is read up to the end. -/
theorem md5File_follows (answers : List ReadAnswer) {c : Md5Ctx} {ctx : Md5.Ctx}
    (h : c.Follows ctx) : (md5File c answers).Follows (Md5.update ctx (readBytes answers)) := by
  fun_induction md5File c answers generalizing ctx with
  | case1 => exact h
  | case2 => exact h
  | case3 c bs rest hzero =>
    rw [readBytes, if_pos hzero]
    exact h
  | case4 c bs rest hne ih =>
    rw [readBytes, if_neg hne, Md5.update_append]
    exact ih (h.update bs)

/-- The digits of a file are those of the digest of its bytes, however they are read. -/
theorem getFileMd5_eq (garbage : ℕ → UInt32) (answers : List ReadAnswer) :
    getFileMd5 garbage (some answers) = some (Md5.hexDigest (readBytes answers)) := by
  have hfollows := md5File_follows answers (Md5Ctx.follows_init garbage)
  rw [getFileMd5, Option.map_some, hfollows.final]
  rfl

end Gendo.Client
