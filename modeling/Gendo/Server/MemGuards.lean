import Gendo.Server.MemHeap
import Mathlib.Data.List.Pairwise

/-!
# With the memory tool and without it

A program that keeps to the memory it was given cannot tell whether the tool is on: it gets the
same addresses, given that libc hands out the same memory, reads the same bytes and hears of no
fault. This holds as long as libc has memory; when it has none, the hook reads the NULL that it gets
for a block. For a program that does not keep to its memory, the tool holds on to the block with the
damaged guard word. It refuses it whenever it is given back, so that libc never reuses the memory
behind it.
-/

namespace Gendo

open ByteMemory LinkedList StepSystem

/-- Both guard words are as they were. -/
def MemBlock.Intact (b : MemBlock) : Prop := b.FrontOk ∧ b.BackOk

instance (b : MemBlock) : Decidable b.Intact := inferInstanceAs (Decidable (_ ∧ _))

/-- The addresses are in the memory of the user. -/
def MemBlock.Owns (b : MemBlock) (a n : ℕ) : Prop := b.ptr ≤ a ∧ a + n ≤ b.ptr + b.size

instance (b : MemBlock) (a n : ℕ) : Decidable (b.Owns a n) := inferInstanceAs (Decidable (_ ∧ _))

namespace MemCall

/-- The same call where the tool is off: libc hands out what the tool would. -/
def off : MemCall → MemCall
  | .malloc size file line answer => .malloc size file line (answer.map (· + sizeofMemStruct))
  | c => c

/-- The program uses only its own memory, and does not list it. -/
def Within (t : MemHeap) : MemCall → Prop
  | .memShow => False
  | .store a bs => ∃ b ∈ t.blocks, b.Owns a bs.length
  | .load a n => ∃ b ∈ t.blocks, b.Owns a n
  | _ => True

instance (t : MemHeap) : (c : MemCall) → Decidable (c.Within t)
  | .malloc .. => isTrue trivial
  | .free .. => isTrue trivial
  | .check _ => isTrue trivial
  | .memShow => isFalse id
  | .store .. => inferInstanceAs (Decidable (∃ b ∈ t.blocks, _))
  | .load .. => inferInstanceAs (Decidable (∃ b ∈ t.blocks, _))

/-- The call leaves the guard words of the block alone. -/
def Spares (b : MemBlock) : MemCall → Prop
  | .store a bs => b.Holds a bs.length → b.Owns a bs.length
  | _ => True

instance (b : MemBlock) : (c : MemCall) → Decidable (c.Spares b)
  | .malloc .. => isTrue trivial
  | .free .. => isTrue trivial
  | .check _ => isTrue trivial
  | .memShow => isTrue trivial
  | .store .. => inferInstanceAs (Decidable (_ → _))
  | .load .. => isTrue trivial

end MemCall

/-- A call of a program without faults. -/
def MemHeap.Proper (memList : ℕ) (t : MemHeap) (c : MemCall) : Prop :=
  MemHeap.Allowed memList t c ∧ c.Within t

instance (memList : ℕ) (t : MemHeap) (c : MemCall) : Decidable (MemHeap.Proper memList t c) :=
  inferInstanceAs (Decidable (_ ∧ _))

/-! ## Writes and guard words -/

namespace MemBlock

variable {b c : MemBlock} {a n size line : ℕ} {file : CString} {bs : List UInt8}

/-- Two blocks of a heap are one, or apart. -/
theorem eq_or_apart {l : List MemBlock} (h : l.Pairwise Apart) (hb : b ∈ l) (hc : c ∈ l) :
    b = c ∨ b.Apart c := by
  have : Std.Symm Apart := ⟨fun _ _ => Apart.symm⟩
  exact (eq_or_ne b c).imp_right (h.forall hb hc)

theorem size_store (b : MemBlock) (a : ℕ) (bs : List UInt8) : (b.store a bs).size = b.size := by
  rw [size, size, length_window_store]

theorem ptr_store (b : MemBlock) (a : ℕ) (bs : List UInt8) : (b.store a bs).ptr = b.ptr := by
  rw [ptr, base_store, ptr]

theorem Owns.holds (h : b.Owns a n) : b.Holds a n := by
  obtain ⟨hlo, hhi⟩ := h
  simp only [Holds, start, ptr, len, MemStruct.magic, sizeofMemStruct] at *
  omega

/-- Nothing of a block but its own memory changes with a write there. -/
theorem Owns.store (h : b.Owns a bs.length) :
    (b.store a bs).window.take 4 = b.window.take 4 ∧
      (b.store a bs).window.drop (4 + b.size) = b.window.drop (4 + b.size) ∧
      (b.store a bs).body = splice b.body (a - b.ptr) bs := by
  have hwindow := store_of_holds h.holds
  have hroom : b.size + 8 = b.window.length := Nat.sub_add_cancel b.room
  have hptr : b.ptr = b.start + 4 := rfl
  obtain ⟨hlo, hhi⟩ := h
  refine ⟨?_, ?_, ?_⟩
  · rw [hwindow, take_splice (by omega) (by omega)]
  · rw [hwindow, drop_splice (by omega) (by omega)]
  · rw [body, size_store, hwindow, take_drop_splice (by omega) (by omega) (by omega), hptr,
      Nat.sub_sub]
    rfl

theorem intact_new (m size : ℕ) (file : CString) (line : ℕ) : (new m size file line).Intact := by
  have hlen : ∀ v : ℤ, (intBytes v).length = 4 := length_intBytes
  constructor
  · show (intBytes MEM_MAGIC ++ List.replicate size 0 ++ intBytes MEM_MAGIC).take 4 = _
    rw [List.append_assoc]
    exact List.take_left' (hlen _)
  · rw [BackOk, size_new]
    exact List.drop_left' (by rw [List.length_append, hlen, List.length_replicate])

theorem Intact.store (h : b.Intact) (hin : b.Holds a bs.length → b.Owns a bs.length) :
    (b.store a bs).Intact := by
  by_cases hholds : b.Holds a bs.length
  · obtain ⟨htake, hdrop, -⟩ := (hin hholds).store
    refine ⟨htake.trans h.1, ?_⟩
    rw [BackOk, size_store]
    exact hdrop.trans h.2
  · rwa [store_of_not_holds hholds]

theorem body_new (m size : ℕ) (file : CString) (line : ℕ) :
    (new m size file line).body = List.replicate size 0 := by
  rw [body, size_new]
  show ((intBytes MEM_MAGIC ++ List.replicate size 0 ++ intBytes MEM_MAGIC).drop 4).take size = _
  rw [List.append_assoc, List.drop_left' (length_intBytes _)]
  exact List.take_left' (List.length_replicate ..)

/-- The memory of the user, as it is seen through the window. -/
theorem load_of_owns (h : b.Owns a n) : b.load a n = (b.body.drop (a - b.ptr)).take n := by
  obtain ⟨hlo, hhi⟩ := h
  have hplace : a - b.start = 4 + (a - b.ptr) := by
    have hptr : b.ptr = b.start + 4 := rfl
    omega
  rw [load, body, hplace, List.drop_take, List.drop_drop, List.take_take,
    Nat.min_eq_left (by omega)]

end MemBlock

/-! ## Programs without faults -/

/-- libc alone holds the heap: the same memory, and no structures around it. -/
structure RepresentsOff (s : MemTool) (t : MemHeap) : Prop where
  memOn : s.memOn = false
  libc : s.libc = t.blocks.map fun b => (b.ptr, b.size)
  bodies : ∀ b ∈ t.blocks, read s.mem b.ptr b.size = b.body

/-- What holds of the heap of a program without faults. -/
structure Sound (t : MemHeap) : Prop where
  intact : ∀ b ∈ t.blocks, b.Intact
  apart : t.blocks.Pairwise MemBlock.Apart

section Off

variable {memList : ℕ} {s : MemTool} {t : MemHeap} {b c : MemBlock}

theorem Sound.check (h : Sound t) (ptr : ℕ) : t.check ptr = (OK, t) := by
  rw [MemHeap.check]
  cases hfind : t.find ptr with
  | none => rfl
  | some b =>
    obtain ⟨hfront, hback⟩ := h.intact b (List.mem_of_find?_eq_some hfind)
    simp only [hfront, hback, not_true_eq_false, if_false]

/-- A call without faults keeps the heap sound, and nothing is reported. -/
theorem Sound.call (h : Sound t) {k : MemCall} (hk : MemHeap.Proper memList t k) :
    Sound (t.call k).2 ∧ (t.call k).2.faults = t.faults := by
  cases k with
  | malloc size file line answer =>
    obtain ⟨-, -, m, rfl, -, hm⟩ := hk.1
    refine ⟨⟨?_, ?_⟩, rfl⟩
    · intro b hb
      rcases List.mem_append.1 hb with hb | hb
      · exact h.intact b hb
      · rw [List.mem_singleton.1 hb]
        exact MemBlock.intact_new m size file line
    · refine List.pairwise_append.2 ⟨h.apart, List.pairwise_singleton .., ?_⟩
      intro b hb c hc
      rw [List.mem_singleton.1 hc]
      exact (hm b hb).symm
  | free ptr file line =>
    show Sound (t.free ptr file line) ∧ (t.free ptr file line).faults = t.faults
    rw [MemHeap.free]
    cases hfind : t.find ptr with
    | none => exact ⟨h, rfl⟩
    | some b =>
      obtain ⟨hfront, hback⟩ := h.intact b (List.mem_of_find?_eq_some hfind)
      have hsub := List.eraseP_sublist (p := (·.ptr = ptr)) (l := t.blocks)
      simp only [hfront, hback, not_true_eq_false, if_false]
      exact ⟨⟨fun c hc => h.intact c (hsub.subset hc), h.apart.sublist hsub⟩, trivial⟩
  | check ptr =>
    show Sound (t.check ptr).2 ∧ (t.check ptr).2.faults = t.faults
    rw [h.check]
    exact ⟨h, rfl⟩
  | memShow => exact hk.2.elim
  | store a bs =>
    obtain ⟨b, hb, howns⟩ := hk.2
    refine ⟨⟨?_, ?_⟩, rfl⟩
    · -- the bytes lie in one block, and of this one between the guard words
      intro c hc
      obtain ⟨d, hd, rfl⟩ := List.mem_map.1 hc
      apply (h.intact d hd).store
      intro hholds
      rcases MemBlock.eq_or_apart h.apart hb hd with rfl | hapart
      · exact howns
      · exact absurd hholds (howns.holds.not_of_apart hapart)
    · refine List.pairwise_map.2 (h.apart.imp fun {c d} hapart => ?_)
      simpa only [MemBlock.Apart, MemBlock.base_store, MemBlock.len_store] using hapart
  | load a n => exact ⟨h, rfl⟩

/-- libc alone answers as the heap. -/
theorem RepresentsOff.memCall (h : RepresentsOff s t) (hs : Sound t) {k : MemCall}
    (hk : MemHeap.Proper memList t k) :
    ∃ s', memCall memList s k.off = .ok ((t.call k).1, s') ∧ RepresentsOff s' (t.call k).2 := by
  have hoff : (!s.memOn) = true := by simp [h.memOn]
  cases k with
  | malloc size file line answer =>
    obtain ⟨-, -, m, rfl, -, hm⟩ := hk.1
    let s' := (s.taken (m + sizeofMemStruct) size).memset (m + sizeofMemStruct) size
    have hmalloc : MemTool.libMemMalloc memList s size file line (some (m + sizeofMemStruct)) =
        .ok (some (m + sizeofMemStruct), s') := by
      rw [MemTool.libMemMalloc, if_pos hoff]
    refine ⟨s', ?_, h.memOn, ?_, fun b hb => ?_⟩
    · show (MemTool.libMemMalloc memList s size file line (some (m + sizeofMemStruct)) >>=
        fun r => _) = _
      rw [hmalloc]
      rfl
    · have hnew := MemBlock.size_new m size file line
      simp only [MemHeap.call, MemHeap.malloc, List.map_append, List.map_singleton, hnew, ← h.libc]
      rfl
    · -- the new memory is apart from that of the old blocks
      rcases List.mem_append.1 hb with hb | hb
      · rw [← h.bodies b hb]
        apply read_apply_of_apart
        have hapart := hm b hb
        rw [MemBlock.Apart, MemBlock.len_new, MemBlock.len] at hapart
        have hbase : (MemBlock.new m size file line).base = m := rfl
        rw [List.length_replicate, MemBlock.ptr]
        show _ ≤ m + sizeofMemStruct ∨ m + sizeofMemStruct + size ≤ _
        omega
      · rw [List.mem_singleton.1 hb, MemBlock.body_new, MemBlock.size_new]
        have hself := read_apply_self ⟨m + sizeofMemStruct, List.replicate size 0⟩ s.mem
        rwa [List.length_replicate] at hself
  | free ptr file line =>
    refine ⟨_, rfl, ?_⟩
    show RepresentsOff (MemTool.libMemFree s ptr file line) (t.free ptr file line)
    rw [MemTool.libMemFree, if_pos hoff, MemHeap.free]
    cases hfind : t.find ptr with
    | none =>
      have hnull : ptr = 0 := by
        apply hk.1.2.resolve_right
        rintro ⟨b, hb, hbptr⟩
        simpa [hbptr] using List.find?_eq_none.1 hfind b hb
      rw [if_neg (not_not.2 hnull)]
      exact h
    | some b =>
      have hmem := List.mem_of_find?_eq_some hfind
      obtain ⟨hfront, hback⟩ := hs.intact b hmem
      -- both sides give the memory back, as the guard words are intact
      have hptr : b.ptr = ptr := by simpa using List.find?_some hfind
      have hne : ptr ≠ 0 := by
        rw [← hptr]
        simp [MemBlock.ptr, sizeofMemStruct]
      simp only [hfront, hback, not_true_eq_false, if_false, if_pos hne]
      refine ⟨h.memOn, ?_, fun c hc => h.bodies c (List.eraseP_sublist.subset hc)⟩
      rw [MemTool.release, h.libc, List.eraseP_map]
      rfl
  | check ptr =>
    obtain ⟨b, hb, rfl⟩ := hk.1
    refine ⟨s, ?_, ?_⟩
    · show Except.ok (MemAnswer.code (MemTool.libMemCheck s b.ptr).1,
        (MemTool.libMemCheck s b.ptr).2) = .ok (.code (t.check b.ptr).1, s)
      rw [hs.check, MemTool.libMemCheck, if_pos hoff]
    · show RepresentsOff s (t.check b.ptr).2
      rw [hs.check]
      exact h
  | memShow => exact hk.2.elim
  | store a bs =>
    obtain ⟨b, hb, howns⟩ := hk.2
    refine ⟨_, rfl, h.memOn, ?_, fun c hc => ?_⟩
    · show s.libc = (t.blocks.map (·.store a bs)).map fun b => (b.ptr, b.size)
      rw [h.libc, List.map_map]
      refine List.map_congr_left fun b _ => ?_
      simp [MemBlock.ptr_store, MemBlock.size_store]
    · obtain ⟨d, hd, rfl⟩ := List.mem_map.1 hc
      rw [MemBlock.ptr_store, MemBlock.size_store]
      rcases MemBlock.eq_or_apart hs.apart hb hd with rfl | hapart
      · rw [howns.store.2.2, ← h.bodies b hb]
        exact read_apply_eq_splice (p := ⟨a, bs⟩) howns.1 howns.2 s.mem
      · rw [MemBlock.store_of_not_holds (howns.holds.not_of_apart hapart), ← h.bodies d hd]
        apply read_apply_of_apart
        obtain ⟨hlo, hhi⟩ := howns
        rw [MemBlock.Apart, MemBlock.len, MemBlock.len] at hapart
        rw [MemBlock.ptr] at hlo hhi ⊢
        show _ ≤ a ∨ a + bs.length ≤ _
        omega
  | load a n =>
    obtain ⟨b, hb, howns⟩ := hk.2
    refine ⟨s, ?_, h⟩
    have hload : t.load a n = read s.mem a n := by
      -- the block that is found is the one that owns the addresses
      obtain ⟨c, hfind⟩ : ∃ c, t.blocks.find? (·.Holds a n) = some c := by
        cases hfind : t.blocks.find? (·.Holds a n) with
        | none => exact absurd (List.find?_eq_none.1 hfind b hb) (by simpa using howns.holds)
        | some c => exact ⟨c, rfl⟩
      have hholds : c.Holds a n := by simpa using List.find?_some hfind
      obtain rfl : b = c := (MemBlock.eq_or_apart hs.apart hb
        (List.mem_of_find?_eq_some hfind)).resolve_right fun hapart =>
          howns.holds.not_of_apart hapart hholds
      have hlo := howns.1
      have hhi := howns.2
      rw [MemHeap.load, hfind]
      show b.load a n = _
      rw [MemBlock.load_of_owns howns, ← h.bodies b hb, drop_read _ _ (by omega),
        take_read _ _ (by omega), Nat.add_sub_cancel' hlo]
    show Except.ok (MemAnswer.bytes (read s.mem a n), s) = _
    rw [← hload]
    rfl

theorem sound_noBlocks : Sound noBlocks := ⟨by simp [noBlocks], .nil⟩

theorem representsOff_memInit (memList : ℕ) (L : Links ℕ) (mem : Mem) :
    RepresentsOff (memInit memList L mem false) noBlocks := ⟨rfl, rfl, by simp [noBlocks]⟩

/-- The hook hears of nothing in a run without faults. -/
theorem faults_of_proper {calls : List MemCall}
    (h : Guarded (MemHeap.Proper memList) noBlocks (runOf MemHeap.next noBlocks calls)) :
    (answers MemHeap.call noBlocks calls).2.faults = [] := by
  have hrun : IsRun (fun t k u => u = MemHeap.next t k ∧ MemHeap.Proper memList t k) noBlocks
      (runOf MemHeap.next noBlocks calls) := (isRun_runOf MemHeap.next noBlocks calls).and h
  have hend : Always (fun t => Sound t ∧ t.faults = []) noBlocks
      (runOf MemHeap.next noBlocks calls) := by
    refine always_of_invariant (fun t k u ht hstep => ?_) ⟨sound_noBlocks, rfl⟩ hrun
    obtain ⟨rfl, hk⟩ := hstep
    obtain ⟨hsound, hfaults⟩ := ht.1.call hk
    exact ⟨hsound, hfaults.trans ht.2⟩
  rw [answers_snd]
  exact hend.last.2

/-- A program that keeps to the memory it was given sees no difference between the tool on and the
tool off, where libc hands out the same memory and has enough of it. With the tool on nothing is
reported, and the same blocks are outstanding. -/
theorem memTool_off (memList : ℕ) (L L' : Links ℕ) (mem mem' : Mem) {calls : List MemCall}
    (h : Guarded (MemHeap.Proper memList) noBlocks (runOf MemHeap.next noBlocks calls)) :
    ∃ bs s s', tryAnswers (memCall memList) (memInit memList L mem true) calls = .ok (bs, s) ∧
      tryAnswers (memCall memList) (memInit memList L' mem' false) (calls.map MemCall.off) =
        .ok (bs, s') ∧
      s.hooked = [] ∧
      s'.libc = s.libc.map fun r => (r.1 + sizeofMemStruct, r.2 - (sizeofMemStruct + 4)) := by
  obtain ⟨s, hon, hrep⟩ := memTool_refines memList L mem (h.imp fun _ _ _ hk => hk.1)
  have hstep : ∀ (s : MemTool) (t : MemHeap) (k : MemCall), RepresentsOff s t ∧ Sound t →
      MemHeap.Proper memList t k → ∃ s', memCall memList s k.off = .ok ((t.call k).1, s') ∧
        RepresentsOff s' (t.call k).2 ∧ Sound (t.call k).2 := by
    rintro s t k ⟨hrep, hsound⟩ hk
    obtain ⟨s', hcall, hrep'⟩ := hrep.memCall hsound hk
    exact ⟨s', hcall, hrep', (hsound.call hk).1⟩
  obtain ⟨s', hoff, hrep', -⟩ := tryAnswers_eq_of_simulation hstep
    ⟨representsOff_memInit memList L' mem', sound_noBlocks⟩ h
  refine ⟨_, s, s', hon, (tryAnswers_map MemCall.off _ calls).trans hoff,
    hrep.hooked.trans (faults_of_proper h), ?_⟩
  rw [hrep'.libc, hrep.libc, List.map_map]
  -- libc's blocks are larger with the tool on, by the header and the guard word behind
  refine List.map_congr_left fun b _ => ?_
  have hsize : b.len - (sizeofMemStruct + 4) = b.size := by
    rw [MemBlock.len]
    omega
  show _ = (b.base + sizeofMemStruct, b.len - (sizeofMemStruct + 4))
  rw [hsize]
  rfl

/-- Three blocks, the third in the memory of the first, which was given back. -/
def properCalls : List MemCall :=
  [.malloc 4 (.ofBytes [97]) 10 (some 1000), .malloc 2 (.ofBytes [98]) 20 (some 2000),
    .store 1290 [1, 2], .load 1288 4, .check 1288, .free 1288 (.ofBytes [97]) 30,
    .malloc 8 (.ofBytes [97]) 40 (some 900)]

theorem memTool_off_properCalls :
    ∃ bs s s', tryAnswers (memCall 64) (memInit 64 ⟨fun _ => none, fun _ => none⟩ (fun _ => 7) true)
        properCalls = .ok (bs, s) ∧
      tryAnswers (memCall 64) (memInit 64 ⟨fun _ => none, fun _ => none⟩ (fun _ => 9) false)
        (properCalls.map MemCall.off) = .ok (bs, s') ∧
      s.hooked = [] ∧
      s'.libc = s.libc.map fun r => (r.1 + sizeofMemStruct, r.2 - (sizeofMemStruct + 4)) :=
  memTool_off 64 _ _ _ _ (by decide +kernel)

end Off

/-! ## Damaged blocks -/

section Damaged

variable {memList : ℕ} {s : MemTool} {t : MemHeap} {b c : MemBlock}

/-- The block is still there, with the same guard words. -/
def Kept (b : MemBlock) (t : MemHeap) : Prop :=
  ∃ c ∈ t.blocks, c.base = b.base ∧ c.window.length = b.window.length ∧
    c.window.take 4 = b.window.take 4 ∧
    c.window.drop (4 + b.size) = b.window.drop (4 + b.size)

theorem intact_iff_of_same (hlen : c.window.length = b.window.length)
    (htake : c.window.take 4 = b.window.take 4)
    (hdrop : c.window.drop (4 + b.size) = b.window.drop (4 + b.size)) : c.Intact ↔ b.Intact := by
  have hsize : c.size = b.size := by rw [MemBlock.size, MemBlock.size, hlen]
  rw [MemBlock.Intact, MemBlock.Intact, MemBlock.FrontOk, MemBlock.FrontOk, MemBlock.BackOk,
    MemBlock.BackOk, hsize, htake, hdrop]

/-- A damaged block stays, whatever is called. -/
theorem Kept.call (hapart : t.blocks.Pairwise MemBlock.Apart) (hbad : ¬b.Intact) (h : Kept b t)
    {k : MemCall} (hk : k.Spares b) : Kept b (t.call k).2 := by
  obtain ⟨c, hc, hbase, hlen, htake, hdrop⟩ := h
  have hptr : c.ptr = b.ptr := by rw [MemBlock.ptr, MemBlock.ptr, hbase]
  cases k with
  | malloc size file line answer =>
    cases answer with
    | none => exact ⟨c, hc, hbase, hlen, htake, hdrop⟩
    | some m => exact ⟨c, List.mem_append_left _ hc, hbase, hlen, htake, hdrop⟩
  | free ptr file line =>
    show Kept b (t.free ptr file line)
    rw [MemHeap.free]
    cases hfind : t.find ptr with
    | none => exact ⟨c, hc, hbase, hlen, htake, hdrop⟩
    | some d =>
      show Kept b (if _ then _ else _)
      split
      · exact ⟨c, hc, hbase, hlen, htake, hdrop⟩
      · next hfront =>
        split
        · -- the word behind is damaged: the block gets the place of the call, and stays
          refine ⟨if c.ptr = ptr then c.touch file line else c, List.mem_map_of_mem hc, ?_⟩
          split
          · exact ⟨hbase, hlen, htake, hdrop⟩
          · exact ⟨hbase, hlen, htake, hdrop⟩
        · next hback =>
          -- an intact block is found, so it is not the damaged one
          have hne : c.ptr ≠ ptr := by
            intro heq
            have hd : d.ptr = ptr := by simpa using List.find?_some hfind
            have hsame : c = d := (MemBlock.eq_or_apart hapart hc
              (List.mem_of_find?_eq_some hfind)).resolve_right fun hcd => hcd.base_ne (by
                rw [← hd, MemBlock.ptr, MemBlock.ptr] at heq
                omega)
            rw [← intact_iff_of_same hlen htake hdrop, hsame] at hbad
            exact hbad ⟨not_not.1 hfront, not_not.1 hback⟩
          exact ⟨c, (List.mem_eraseP_of_neg (by simpa using hne)).2 hc, hbase, hlen, htake, hdrop⟩
  | check ptr =>
    have hsame : (t.check ptr).2.blocks = t.blocks := by
      rw [MemHeap.check]
      cases t.find ptr with
      | none => rfl
      | some d =>
        show (if _ then _ else _ : ℤ × MemHeap).2.blocks = _
        split
        · rfl
        · split <;> rfl
    exact ⟨c, hsame ▸ hc, hbase, hlen, htake, hdrop⟩
  | memShow => exact ⟨c, hc, hbase, hlen, htake, hdrop⟩
  | store a bs =>
    refine ⟨c.store a bs, List.mem_map_of_mem hc, ?_⟩
    rw [MemBlock.base_store, MemBlock.length_window_store]
    have hsize : c.size = b.size := by rw [MemBlock.size, MemBlock.size, hlen]
    by_cases hholds : c.Holds a bs.length
    · have howns : c.Owns a bs.length := by
        have hsame : b.Holds a bs.length := by
          simpa only [MemBlock.Holds, MemBlock.start, MemBlock.len, hbase, hsize] using hholds
        simpa only [MemBlock.Owns, hptr, hsize] using hk hsame
      obtain ⟨htake', hdrop', -⟩ := howns.store
      rw [hsize] at hdrop'
      exact ⟨hbase, hlen, htake'.trans htake, hdrop'.trans hdrop⟩
    · rw [MemBlock.store_of_not_holds hholds]
      exact ⟨hbase, hlen, htake, hdrop⟩
  | load a n => exact ⟨c, hc, hbase, hlen, htake, hdrop⟩

/-- `lib_mem_free` of a damaged block is refused. -/
theorem libMemFree_of_damaged (hon : s.memOn = true) (hb : b.Lies s.mem) (hbad : ¬b.Intact)
    {file : CString} {line : ℕ} (hplace : MemHeap.Place file line) :
    (MemTool.libMemFree s b.ptr file line).libc = s.libc ∧
      (MemTool.libMemFree s b.ptr file line).links = s.links ∧
      ∃ code, (MemTool.libMemFree s b.ptr file line).hooked = s.hooked ++ [(code, b.base)] := by
  rw [libMemFree_eq hon hb hplace]
  split
  · exact ⟨rfl, rfl, _, rfl⟩
  · next hfront =>
    rw [if_pos fun hback => hbad ⟨not_not.1 hfront, hback⟩]
    exact ⟨rfl, rfl, _, rfl⟩

/-- A block whose guard word was overwritten is never given to libc again, unless the program
repairs the guard word: whatever is called, it stays in the list, its memory stays taken, and
every check and every attempt to free it is reported. -/
theorem memTool_refuses (memList : ℕ) (L : Links ℕ) (mem : Mem) {calls₁ calls₂ : List MemCall}
    (h₁ : Guarded (MemHeap.Allowed memList) noBlocks (runOf MemHeap.next noBlocks calls₁))
    (hb : b ∈ (answers MemHeap.call noBlocks calls₁).2.blocks) (hbad : ¬b.Intact)
    (h₂ : Guarded (fun t k => MemHeap.Allowed memList t k ∧ k.Spares b)
      (answers MemHeap.call noBlocks calls₁).2
      (runOf MemHeap.next (answers MemHeap.call noBlocks calls₁).2 calls₂)) :
    ∃ bs s, tryAnswers (memCall memList) (memInit memList L mem true) (calls₁ ++ calls₂) =
        .ok (bs, s) ∧
      (MemTool.libMemCheck s b.ptr).1 = ERROR ∧ (b.base, b.len) ∈ s.libc ∧
      (∃ xs, Ring s.links memList xs ∧ b.base ∈ xs) ∧
      ∀ file line, MemHeap.Place file line →
        (MemTool.libMemFree s b.ptr file line).libc = s.libc ∧
          (MemTool.libMemFree s b.ptr file line).links = s.links ∧
          ∃ code, (MemTool.libMemFree s b.ptr file line).hooked = s.hooked ++ [(code, b.base)] := by
  obtain ⟨s₁, hfirst, hrep₁⟩ := memTool_refines memList L mem h₁
  have hstep : ∀ (s : MemTool) (t : MemHeap) (k : MemCall),
      RepresentsHeap memList s t ∧ Kept b t → MemHeap.Allowed memList t k ∧ k.Spares b →
      ∃ s', memCall memList s k = .ok ((t.call k).1, s') ∧
        RepresentsHeap memList s' (t.call k).2 ∧ Kept b (t.call k).2 := by
    rintro s t k ⟨hrep, hkept⟩ ⟨hk, hspares⟩
    obtain ⟨s', hcall, hrep'⟩ := hrep.memCall hk
    exact ⟨s', hcall, hrep', hkept.call hrep.apart hbad hspares⟩
  obtain ⟨s₂, hrest, hrep, hkept⟩ := tryAnswers_eq_of_simulation hstep
    ⟨hrep₁, b, hb, rfl, rfl, rfl, rfl⟩ h₂
  refine ⟨_, s₂, tryAnswers_append hfirst hrest, ?_⟩
  -- the block that is in its place now, with the same guard words
  obtain ⟨c, hc, hbase, hlen, htake, hdrop⟩ := hkept
  have hlies := hrep.lies c hc
  have hptr : c.ptr = b.ptr := by rw [MemBlock.ptr, MemBlock.ptr, hbase]
  have hwhole : c.len = b.len := by
    rw [MemBlock.len, MemBlock.len, MemBlock.size, MemBlock.size, hlen]
  have hbad' : ¬c.Intact := fun h => hbad ((intact_iff_of_same hlen htake hdrop).1 h)
  rw [← hptr, ← hbase, ← hwhole]
  refine ⟨?_, ?_, ⟨_, hrep.ring, List.mem_map_of_mem hc⟩, fun file line hplace =>
    libMemFree_of_damaged hrep.memOn hlies hbad' hplace⟩
  · rw [libMemCheck_eq hrep.memOn hlies]
    split
    · rfl
    · next hfront =>
      rw [if_pos fun hback => hbad' ⟨not_not.1 hfront, hback⟩]
  · rw [hrep.libc]
    exact List.mem_map_of_mem hc

/-- The first block of two, one byte too far. -/
def damagedCalls : List MemCall :=
  [.malloc 4 (.ofBytes [97]) 10 (some 1000), .malloc 2 (.ofBytes [98]) 20 (some 2000),
    .store 1288 [1, 2, 3, 4, 5]]

/-- It is given back, used and checked. -/
def damagedRest : List MemCall :=
  [.free 1288 (.ofBytes [97]) 30, .store 1288 [9], .free 2288 (.ofBytes [97]) 31, .check 1288]

theorem damagedBlock_room :
    8 ≤ [0x87, 0xE9, 0xCD, 0xAB, 1, 2, 3, 4, 5, 0xE9, 0xCD, (0xAB : UInt8)].length := by decide

def damagedBlock : MemBlock where
  base := 1000
  file := .ofBytes [97]
  line := 10
  window := [0x87, 0xE9, 0xCD, 0xAB, 1, 2, 3, 4, 5, 0xE9, 0xCD, 0xAB]
  room := damagedBlock_room

theorem memTool_refuses_damagedCalls :
    ∃ bs s, tryAnswers (memCall 64) (memInit 64 ⟨fun _ => none, fun _ => none⟩ (fun _ => 7) true)
        (damagedCalls ++ damagedRest) = .ok (bs, s) ∧
      (MemTool.libMemCheck s 1288).1 = ERROR ∧ (1000, 296) ∈ s.libc ∧
      (∃ xs, Ring s.links 64 xs ∧ 1000 ∈ xs) ∧
      ∀ file line, MemHeap.Place file line →
        (MemTool.libMemFree s 1288 file line).libc = s.libc ∧
          (MemTool.libMemFree s 1288 file line).links = s.links ∧
          ∃ code, (MemTool.libMemFree s 1288 file line).hooked = s.hooked ++ [(code, 1000)] :=
  @memTool_refuses damagedBlock 64 _ _ damagedCalls damagedRest (by decide +kernel)
    (by decide +kernel) (by decide +kernel) (by decide +kernel)

end Damaged

end Gendo
