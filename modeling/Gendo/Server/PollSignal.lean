import Gendo.Library.SafeWalk
import Gendo.Library.StepSystem
import Mathlib.Order.Nat

/-!
# Signals of a poll

`poll_signal_handle` runs whenever a signal comes, on whatever thread: it marks the first node for
the signal in each poll of this process, and writes a byte into the poll's pipe. The pipe's server
wakes `poll_wait`, which reads one byte, and `poll_sig` walks the list and calls the functions of
the nodes that are marked. Marks and bytes are not counted against each other: a byte is not
written where the pipe is full, a mark is cleared for several bytes, and a byte is read after the
mark it was written for is gone.

No mark is lost in this, in any interleaving (`signal_called`), and no function is called without a
mark of its own (`signal_calls_le`).
-/

namespace Gendo

open SafeWalk StepSystem

/-! ## One poll -/

/-- `poll_signal_t`, of which the function is not needed here. -/
structure PollSignal where
  sigNo : ℤ
  notify : Bool
deriving DecidableEq

/-- Where the thread of a poll is in `poll_sig`, with the node that it is at and the one that it
saved as the next. `none` is the head of the list. -/
inductive SigScan
  | idle
  | atNode (pNode : Option ℕ)
  | notified (pNode : ℕ) (pNodeTp : Option ℕ)
  | cleared (pNode : ℕ) (pNodeTp : Option ℕ)
  | called (pNodeTp : Option ℕ)
deriving DecidableEq

/-- What of `poll_poll_t` is used for signals. The pipe is `none` where `pipe_fd` is zero, and else
the number of bytes in it. -/
structure SigPoll where
  magic : UInt32
  pid : ℕ
  signalList : List ℕ
  sig : ℕ → PollSignal
  pipe : Option ℕ
  scan : SigScan

/-- The steps of the thread that runs `poll_wait`: the wake-up with its byte, and in `poll_sig` the
test of a mark, its clearing, the call of the function, its return, and the end of the list. -/
inductive ScanLabel
  | wake
  | check
  | clear
  | call (addr : ℕ)
  | ret
  | done
deriving DecidableEq

/-- How `poll_add_signal` ends: no memory, no pipe, no `sigaction`, or well. -/
inductive AddOutcome
  | noMemory
  | noPipe
  | noAction
  | added
deriving DecidableEq

namespace SigPoll

/-- `poll_get_sig_by_no` -/
def getSigByNo (q : SigPoll) (signum : ℤ) : Option ℕ :=
  q.signalList.find? fun addr => (q.sig addr).sigNo = signum

/-- `pSig->notify = 1` -/
def mark (q : SigPoll) (addr : ℕ) : SigPoll :=
  { q with sig := Function.update q.sig addr { q.sig addr with notify := true } }

/-- `write(pPoll->pipe_fd[1], "1", 1)`, which does not block, and writes nothing if the pipe is
full. -/
def write (q : SigPoll) (full : Bool) : SigPoll :=
  if full then q else { q with pipe := q.pipe.map (· + 1) }

/-- `poll_self_fun_signal` and `poll_sig`, step by step. -/
def nextScan (q : SigPoll) (label : ScanLabel) : SigPoll :=
  match label, q.scan with
  | .wake, .idle => { q with pipe := q.pipe.map (· - 1), scan := .atNode q.signalList.head? }
  | .check, .atNode (some addr) =>
    let pNodeTp := succ q.signalList addr
    { q with scan := if (q.sig addr).notify then .notified addr pNodeTp else .atNode pNodeTp }
  | .clear, .notified addr pNodeTp =>
    { q with
      sig := Function.update q.sig addr { q.sig addr with notify := false }
      scan := .cleared addr pNodeTp }
  | .call _, .cleared _ pNodeTp => { q with scan := .called pNodeTp }
  | .ret, .called pNodeTp => { q with scan := .atNode pNodeTp }
  | .done, .atNode none => { q with scan := .idle }
  | _, _ => q

/-- What the thread can do next. It is woken where there is a byte to be read. -/
def ValidScan (q : SigPoll) : ScanLabel → Prop
  | .wake => q.scan = .idle ∧ ∃ n, q.pipe = some (n + 1)
  | .check => ∃ addr, q.scan = .atNode (some addr)
  | .clear => ∃ addr pNodeTp, q.scan = .notified addr pNodeTp
  | .call addr => ∃ pNodeTp, q.scan = .cleared addr pNodeTp
  | .ret => ∃ pNodeTp, q.scan = .called pNodeTp
  | .done => q.scan = .atNode none

/-- `poll_add_signal` makes the pipe when the list is empty. -/
def withPipe (q : SigPoll) : SigPoll :=
  if q.signalList = [] then { q with pipe := some 0 } else q

/-- `poll_add_signal`. The node is put at the head of the list, and the pipe stays if it is taken
off again. -/
def addSignal (q : SigPoll) (addr : ℕ) (sigNo : ℤ) : AddOutcome → SigPoll
  | .noMemory => q
  | .noPipe => { q with pipe := none }
  | .noAction => q.withPipe
  | .added =>
    { q.withPipe with
      sig := Function.update q.sig addr ⟨sigNo, false⟩
      signalList := addr :: q.signalList }

/-- `poll_del_signal`, which closes the pipe behind the last node. -/
def delSignal (q : SigPoll) (addr : ℕ) : SigPoll :=
  { q with
    signalList := q.signalList.filter (· ≠ addr)
    pipe := if q.signalList.filter (· ≠ addr) = [] then none else q.pipe }

end SigPoll

/-! ## The handler and the polls -/

/-- `poll_signal_handle` under the lock: the polls that it has still to look at, and the one that
it has marked a node of and not written to yet. -/
structure SigHandler where
  signum : ℤ
  rest : List ℕ
  writing : Option ℕ
deriving DecidableEq

/-- The polls by their addresses, those that are in `pBase->poll_list`, and the handler that has
the lock. -/
structure SigSystem where
  getpid : ℕ
  poll : ℕ → SigPoll
  pollList : List ℕ
  handler : Option SigHandler

inductive SigLabel
  | deliver (signum : ℤ)
  | mark (p addr : ℕ)
  | skip (p : ℕ)
  | write (p : ℕ) (full : Bool)
  | leave
  | scan (p : ℕ) (label : ScanLabel)
  | add (p addr : ℕ) (sigNo : ℤ) (outcome : AddOutcome)
  | del (p addr : ℕ)
deriving DecidableEq

namespace SigSystem

def POLL_MAGIC : UInt32 := 0x12345678

/-- The handler for the signal finds the node in the poll, and the poll has a pipe. -/
def Finds (s : SigSystem) (p : ℕ) (signum : ℤ) (addr : ℕ) : Prop :=
  (s.poll p).magic = POLL_MAGIC ∧ (s.poll p).pid = s.getpid ∧
    (s.poll p).getSigByNo signum = some addr ∧ (s.poll p).pipe ≠ none

/-- The thread of the poll is not in `poll_sig` itself: it runs other code, or a function that
`poll_sig` called. -/
def Free (s : SigSystem) (p : ℕ) : Prop :=
  (s.poll p).scan = .idle ∨ ∃ pNodeTp, (s.poll p).scan = .called pNodeTp

def setPoll (s : SigSystem) (p : ℕ) (q : SigPoll) : SigSystem :=
  { s with poll := Function.update s.poll p q }

/-- The handler has looked at a poll. -/
def visited (s : SigSystem) (writing : Option ℕ) : SigSystem :=
  { s with handler := s.handler.map fun h => ⟨h.signum, h.rest.tail, writing⟩ }

def next (s : SigSystem) : SigLabel → SigSystem
  | .deliver signum => { s with handler := some ⟨signum, s.pollList, none⟩ }
  | .mark p addr => (s.setPoll p ((s.poll p).mark addr)).visited (some p)
  | .skip _ => s.visited none
  | .write p full =>
    { s.setPoll p ((s.poll p).write full) with
      handler := s.handler.map fun h => { h with writing := none } }
  | .leave => { s with handler := none }
  | .scan p label => s.setPoll p ((s.poll p).nextScan label)
  | .add p addr sigNo outcome =>
    { s.setPoll p ((s.poll p).addSignal addr sigNo outcome) with
      pollList := if p ∈ s.pollList then s.pollList else p :: s.pollList }
  | .del p addr => s.setPoll p ((s.poll p).delSignal addr)

/-- The handler waits for the lock, and so does `poll_base_add` if it has to put the poll into the
list. A pipe is full only if there are bytes in it. -/
def Valid (s : SigSystem) : SigLabel → Prop
  | .deliver _ => s.handler = none
  | .mark p addr => ∃ signum rest, s.handler = some ⟨signum, p :: rest, none⟩ ∧
    s.Finds p signum addr
  | .skip p => ∃ signum rest, s.handler = some ⟨signum, p :: rest, none⟩ ∧
    ∀ addr, ¬s.Finds p signum addr
  | .write p full => (∃ signum rest, s.handler = some ⟨signum, rest, some p⟩) ∧
    (full = true → ∃ n, (s.poll p).pipe = some (n + 1))
  | .leave => ∃ signum, s.handler = some ⟨signum, [], none⟩
  | .scan p label => (s.poll p).ValidScan label
  | .add p addr _ outcome => (p ∈ s.pollList ∨ s.handler = none) ∧ s.Free p ∧
    (outcome = .noPipe → (s.poll p).signalList = []) ∧
      (outcome = .added → addr ∉ (s.poll p).signalList)
  | .del p addr => s.Free p ∧ addr ∈ (s.poll p).signalList

/-- No signal has been added to any poll. -/
structure Fresh (s : SigSystem) : Prop where
  handler : s.handler = none
  list : ∀ p, (s.poll p).signalList = []
  scan : ∀ p, (s.poll p).scan = .idle

/-- The poll waits, its pipe is empty, and no byte is about to be written into it. -/
def Quiet (s : SigSystem) (p : ℕ) : Prop :=
  (s.poll p).scan = .idle ∧ (∀ n, (s.poll p).pipe ≠ some (n + 1)) ∧
    ∀ h ∈ s.handler, h.writing ≠ some p

end SigSystem

/-- One step. -/
def SigStep (s : SigSystem) (label : SigLabel) (t : SigSystem) : Prop :=
  s.Valid label ∧ t = s.next label

/-- A function of a signal does not free the node that `poll_sig` goes on with, and not the last
node, with which `poll_del_signal` frees the server that `poll_wait` goes on with. -/
def keepsWalk (s : SigSystem) : SigLabel → Prop
  | .del p addr => ∀ pNodeTp, (s.poll p).scan = .called pNodeTp →
    pNodeTp ≠ some addr ∧ ∃ other ∈ (s.poll p).signalList, other ≠ addr
  | _ => True

/-! ## One poll -/

/-- The position from which `poll_sig` has not looked at the list. -/
def SigScan.pos : SigScan → Option ℕ
  | .idle => none
  | .atNode pNode => pNode
  | .notified _ pNodeTp | .cleared _ pNodeTp | .called pNodeTp => pNodeTp

/-- The mark of the node has been cleared, and its function is about to be called. -/
def SigScan.owes : SigScan → ℕ → Bool
  | .cleared pNode _, addr => pNode = addr
  | _, _ => false

namespace SigPoll

variable {q : SigPoll} {addr : ℕ} {writing : Prop}

/-- The nodes whose functions `poll_sig` calls on its way, if they are marked. -/
def still (q : SigPoll) : List ℕ :=
  match q.scan with
  | .notified addr pNodeTp => addr :: ahead q.signalList pNodeTp
  | scan => ahead q.signalList scan.pos

/-- The node is in the list, and marked. -/
def marked (q : SigPoll) (addr : ℕ) : Bool :=
  decide (addr ∈ q.signalList) && (q.sig addr).notify

/-- How often the function of a node has still to be called: for its mark, and for a mark that is
just cleared. -/
def debt (q : SigPoll) (addr : ℕ) : ℕ := (q.marked addr).toNat + (q.scan.owes addr).toNat

/-- `poll_sig` holds nodes that are in the list, and a mark is either in front of it or has a byte,
which is in the pipe or about to be written. -/
structure Ok (q : SigPoll) (writing : Prop) : Prop where
  nodup : q.signalList.Nodup
  piped : q.signalList ≠ [] → q.pipe ≠ none
  pos : ∀ addr ∈ q.scan.pos, addr ∈ q.signalList
  notified : ∀ addr pNodeTp, q.scan = .notified addr pNodeTp →
    addr ∈ q.signalList ∧ (q.sig addr).notify = true
  covered : ∀ addr ∈ q.signalList, (q.sig addr).notify = true →
    (∃ n, q.pipe = some (n + 1)) ∨ writing ∨ addr ∈ q.still

theorem Ok.mono {writing' : Prop} (h : q.Ok writing) (hw : writing → writing') : q.Ok writing' :=
  { h with
    covered := fun addr hmem hnotify =>
      (h.covered addr hmem hnotify).imp_right fun hrest => hrest.imp_left hw }

theorem Ok.mark (h : q.Ok writing) (addr : ℕ) : (q.mark addr).Ok True where
  nodup := h.nodup
  piped := h.piped
  pos := h.pos
  notified a pNodeTp hscan := by
    obtain ⟨hmem, hnotify⟩ := h.notified a pNodeTp hscan
    refine ⟨hmem, ?_⟩
    simp only [SigPoll.mark, Function.update_apply]
    split
    · rfl
    · exact hnotify
  covered _ _ _ := .inr (.inl trivial)

/-- Where a mark waits for its byte, there is one after `write`, also if nothing was written. -/
theorem Ok.write (h : q.Ok writing) {full : Bool}
    (hfull : full = true → ∃ n, q.pipe = some (n + 1)) : (q.write full).Ok False := by
  have hpipe : q.signalList ≠ [] → ∃ n, (q.write full).pipe = some (n + 1) := by
    intro hne
    cases full with
    | true => exact hfull rfl
    | false =>
      obtain ⟨n, hn⟩ := Option.ne_none_iff_exists'.mp (h.piped hne)
      exact ⟨n, by simp [SigPoll.write, hn]⟩
  have hrest : (q.write full).signalList = q.signalList ∧ (q.write full).sig = q.sig ∧
      (q.write full).scan = q.scan := by
    cases full <;> exact ⟨rfl, rfl, rfl⟩
  obtain ⟨hlist, hsig, hscan⟩ := hrest
  constructor
  · exact hlist ▸ h.nodup
  · intro hne
    obtain ⟨n, hn⟩ := hpipe (hlist ▸ hne)
    simp [hn]
  · rw [hlist, hscan]
    exact h.pos
  · rw [hlist, hscan, hsig]
    exact h.notified
  · intro addr hmem _
    exact .inl (hpipe (List.ne_nil_of_mem (hlist ▸ hmem)))

/-- The walk of `poll_sig`. -/
theorem Ok.nextScan (h : q.Ok writing) {label : ScanLabel} (hvalid : q.ValidScan label) :
    (q.nextScan label).Ok writing := by
  obtain ⟨magic, pid, l, sig, pipe, scan⟩ := q
  obtain ⟨hnodup, hpiped, hpos, hnotified, hcovered⟩ := h
  match label, hvalid with
  | .wake, ⟨hidle, n, hn⟩ =>
    obtain rfl : scan = .idle := hidle
    obtain rfl : pipe = some (n + 1) := hn
    refine ⟨hnodup, fun _ => by simp [SigPoll.nextScan], ?_, ?_, ?_⟩
    · exact fun addr haddr => List.mem_of_mem_head? haddr
    · exact fun addr pNodeTp hscan => by simp [SigPoll.nextScan] at hscan
    · -- the walk begins with all nodes, whatever the byte was for
      intro addr hmem _
      refine .inr (.inr ?_)
      simpa [SigPoll.nextScan, still, SigScan.pos] using hmem
  | .check, ⟨addr, hat⟩ =>
    obtain rfl : scan = .atNode (some addr) := hat
    have haddr : addr ∈ l := hpos addr rfl
    have hsucc := ahead_succ hnodup haddr
    have hmem : ∀ a ∈ succ l addr, a ∈ l := fun a ha => mem_of_succ ha
    by_cases hnotify : (sig addr).notify = true
    · have heq : SigPoll.nextScan ⟨magic, pid, l, sig, pipe, .atNode (some addr)⟩ .check =
          ⟨magic, pid, l, sig, pipe, .notified addr (succ l addr)⟩ := by
        simp [SigPoll.nextScan, hnotify]
      rw [heq]
      refine ⟨hnodup, hpiped, hmem, ?_, ?_⟩
      · rintro a pNodeTp hscan
        cases hscan
        exact ⟨haddr, hnotify⟩
      · intro a ha hmark
        simpa [still, SigScan.pos, hsucc] using hcovered a ha hmark
    · have heq : SigPoll.nextScan ⟨magic, pid, l, sig, pipe, .atNode (some addr)⟩ .check =
          ⟨magic, pid, l, sig, pipe, .atNode (succ l addr)⟩ := by
        simp [SigPoll.nextScan, hnotify]
      rw [heq]
      refine ⟨hnodup, hpiped, hmem, fun _ _ hscan => by simp at hscan, ?_⟩
      intro a ha hmark
      have hne : a ≠ addr := fun heq => hnotify (heq ▸ hmark)
      simpa [still, SigScan.pos, hsucc, hne] using hcovered a ha hmark
  | .clear, ⟨addr, pNodeTp, hat⟩ =>
    obtain rfl : scan = .notified addr pNodeTp := hat
    refine ⟨hnodup, hpiped, hpos, fun _ _ hscan => by simp [SigPoll.nextScan] at hscan, ?_⟩
    intro a ha hmark
    have hne : a ≠ addr := by
      rintro rfl
      simp [SigPoll.nextScan] at hmark
    have hold : (sig a).notify = true := by
      simpa [SigPoll.nextScan, hne] using hmark
    simpa [SigPoll.nextScan, still, SigScan.pos, hne] using hcovered a ha hold
  | .call _, ⟨pNodeTp, hat⟩ =>
    obtain rfl : scan = .cleared _ pNodeTp := hat
    exact ⟨hnodup, hpiped, hpos, fun _ _ hscan => by simp [SigPoll.nextScan] at hscan, hcovered⟩
  | .ret, ⟨pNodeTp, hat⟩ =>
    obtain rfl : scan = .called pNodeTp := hat
    exact ⟨hnodup, hpiped, hpos, fun _ _ hscan => by simp [SigPoll.nextScan] at hscan, hcovered⟩
  | .done, hat =>
    obtain rfl : scan = .atNode none := hat
    exact ⟨hnodup, hpiped, hpos, fun _ _ hscan => by simp [SigPoll.nextScan] at hscan, hcovered⟩

/-- The thread of the poll is not in `poll_sig` itself. -/
theorem still_of_free (hfree : q.scan = .idle ∨ ∃ pNodeTp, q.scan = .called pNodeTp) :
    q.still = ahead q.signalList q.scan.pos ∧ q.scan.owes addr = false ∧
      ∀ a pNodeTp, q.scan ≠ .notified a pNodeTp := by
  rcases hfree with hscan | ⟨pNodeTp, hscan⟩ <;> simp [still, SigScan.owes, hscan]

theorem Ok.addSignal (h : q.Ok writing)
    (hfree : q.scan = .idle ∨ ∃ pNodeTp, q.scan = .called pNodeTp) (sigNo : ℤ)
    {outcome : AddOutcome} (hpipe : outcome = .noPipe → q.signalList = [])
    (hnew : outcome = .added → addr ∉ q.signalList) :
    (q.addSignal addr sigNo outcome).Ok writing := by
  obtain ⟨hstill, -, hnot⟩ := @still_of_free q addr hfree
  match outcome with
  | .noMemory => exact h
  | .noPipe =>
    have hnil := hpipe rfl
    refine ⟨h.nodup, fun hne => absurd hnil hne, h.pos, h.notified, fun a ha => ?_⟩
    exact absurd (hnil ▸ ha) List.not_mem_nil
  | .noAction =>
    change q.withPipe.Ok writing
    unfold withPipe
    split
    · next hnil =>
      refine ⟨h.nodup, fun hne => absurd hnil hne, h.pos, h.notified, fun a ha => ?_⟩
      exact absurd (hnil ▸ ha) List.not_mem_nil
    · exact h
  | .added =>
    have hfields : q.withPipe.scan = q.scan ∧ (q.signalList ≠ [] → q.withPipe.pipe = q.pipe) ∧
        q.withPipe.pipe ≠ none := by
      unfold withPipe
      split
      · next hnil => exact ⟨rfl, fun hne => absurd hnil hne, by simp⟩
      · next hne => exact ⟨rfl, fun _ => rfl, h.piped hne⟩
    obtain ⟨hscan, hold, hopen⟩ := hfields
    have haddr := hnew rfl
    refine ⟨List.nodup_cons.mpr ⟨haddr, h.nodup⟩, fun _ => hopen, ?_, ?_, ?_⟩
    · intro a ha
      exact List.mem_cons_of_mem _ (h.pos a (hscan ▸ ha))
    · intro a pNodeTp hat
      exact absurd (hscan ▸ hat) (hnot a pNodeTp)
    · -- the new node is not marked, and the others are ahead as before
      intro a ha hmark
      have hne : a ≠ addr := by
        rintro rfl
        simp [SigPoll.addSignal] at hmark
      have hmem : a ∈ q.signalList := List.mem_of_ne_of_mem hne ha
      have hcover := h.covered a hmem (by simpa [SigPoll.addSignal, hne] using hmark)
      have hpos : q.scan.pos ≠ some addr := fun hpos => haddr (h.pos addr hpos)
      have hstill' : (q.addSignal addr sigNo .added).still = q.still := by
        rw [(@still_of_free (q.addSignal addr sigNo .added) addr (hscan ▸ hfree)).1, hstill]
        change ahead (addr :: q.signalList) q.withPipe.scan.pos = _
        rw [hscan, ahead_cons hpos]
      rw [hstill']
      exact hcover.imp_left fun hn => (hold (List.ne_nil_of_mem hmem)).symm ▸ hn

theorem Ok.delSignal (h : q.Ok writing)
    (hfree : q.scan = .idle ∨ ∃ pNodeTp, q.scan = .called pNodeTp)
    (hkeeps : ∀ pNodeTp, q.scan = .called pNodeTp → pNodeTp ≠ some addr) :
    (q.delSignal addr).Ok writing := by
  obtain ⟨hstill, -, hnot⟩ := @still_of_free q addr hfree
  have hpos : q.scan.pos ≠ some addr := by
    rcases hfree with hscan | ⟨pNodeTp, hscan⟩
    · simp [SigScan.pos, hscan]
    · rw [hscan]
      exact hkeeps pNodeTp hscan
  -- the walk is not at this node, so the nodes that it comes to are as before, without it
  have hstill' : (q.delSignal addr).still = q.still.filter (· ≠ addr) := by
    rw [(@still_of_free (q.delSignal addr) addr hfree).1, hstill]
    exact ahead_filter hpos
  refine ⟨h.nodup.filter _, fun hne => ?_, fun a ha => ?_, fun a pNodeTp hat => ?_, ?_⟩
  · have hne' : q.signalList.filter (· ≠ addr) ≠ [] := hne
    rw [SigPoll.delSignal, if_neg hne']
    exact h.piped fun hnil => hne' (by rw [hnil, List.filter_nil])
  · have hne : a ≠ addr := by
      rintro rfl
      exact hpos ha
    exact List.mem_filter.mpr ⟨h.pos a ha, by simpa using hne⟩
  · exact absurd hat (hnot a pNodeTp)
  · intro a ha hmark
    obtain ⟨hmem, hne⟩ := List.mem_filter.mp ha
    have hpipe : (q.delSignal addr).pipe = q.pipe := if_neg (List.ne_nil_of_mem ha)
    rw [hstill', hpipe, List.mem_filter, and_iff_left hne]
    exact h.covered a hmem hmark

theorem marked_iff : q.marked addr = true ↔ addr ∈ q.signalList ∧ (q.sig addr).notify = true := by
  rw [marked, Bool.and_eq_true, decide_eq_true_eq]

theorem marked_congr {q' : SigPoll} (hlist : addr ∈ q'.signalList ↔ addr ∈ q.signalList)
    (hsig : (q'.sig addr).notify = (q.sig addr).notify) : q'.marked addr = q.marked addr := by
  rw [Bool.eq_iff_iff, marked_iff, marked_iff, hlist, hsig]

/-- A quiet poll has no marks. -/
theorem Ok.debt_eq_zero (h : q.Ok False) (hidle : q.scan = .idle)
    (hpipe : ∀ n, q.pipe ≠ some (n + 1)) (addr : ℕ) : q.debt addr = 0 := by
  have hunmarked : q.marked addr = false := by
    rw [Bool.eq_false_iff]
    intro hmark
    obtain ⟨hmem, hnotify⟩ := marked_iff.mp hmark
    rcases h.covered addr hmem hnotify with ⟨n, hn⟩ | hfalse | hstill
    · exact hpipe n hn
    · exact hfalse
    · simp [still, hidle, SigScan.pos] at hstill
  rw [debt, hunmarked, hidle]
  rfl

/-! ## What is owed -/

theorem debt_mark (q : SigPoll) (addr a : ℕ) :
    q.debt a ≤ (q.mark addr).debt a ∧
      (q.mark addr).debt a ≤ q.debt a + (decide (a = addr)).toNat := by
  by_cases ha : a = addr
  · subst ha
    have hle : q.marked a = true → (q.mark a).marked a = true := by
      intro hmark
      rw [marked_iff] at *
      exact ⟨hmark.1, by simp [SigPoll.mark]⟩
    have hbool : ∀ b b' : Bool, (b = true → b' = true) →
        b.toNat ≤ b'.toNat ∧ b'.toNat ≤ b.toNat + 1 := by decide
    have hmark := hbool _ _ hle
    rw [debt, debt, show (q.mark a).scan = q.scan from rfl, decide_eq_true rfl, Bool.toNat_true]
    omega
  · have hmark : (q.mark addr).marked a = q.marked a :=
      marked_congr Iff.rfl (by simp [SigPoll.mark, ha])
    rw [debt, debt, hmark, show (q.mark addr).scan = q.scan from rfl]
    omega

theorem debt_mark_pos (hmem : addr ∈ q.signalList) : 0 < (q.mark addr).debt addr := by
  have hmark : (q.mark addr).marked addr = true :=
    marked_iff.mpr ⟨hmem, by simp [SigPoll.mark]⟩
  rw [debt, hmark, Bool.toNat_true]
  omega

theorem debt_write (q : SigPoll) (full : Bool) (a : ℕ) : (q.write full).debt a = q.debt a := by
  cases full <;> rfl

/-- `poll_sig` calls a function for what was owed to it. -/
theorem Ok.debt_nextScan (h : q.Ok writing) {label : ScanLabel} (hvalid : q.ValidScan label)
    (a : ℕ) : (q.nextScan label).debt a + (decide (label = .call a)).toNat = q.debt a := by
  obtain ⟨magic, pid, l, sig, pipe, scan⟩ := q
  match label, hvalid with
  | .wake, ⟨hidle, n, hn⟩ =>
    obtain rfl : scan = .idle := hidle
    rfl
  | .check, ⟨addr, hat⟩ =>
    obtain rfl : scan = .atNode (some addr) := hat
    simp only [SigPoll.nextScan, debt]
    by_cases hnotify : (sig addr).notify = true
    · rw [if_pos hnotify]
      rfl
    · rw [if_neg hnotify]
      rfl
  | .clear, ⟨addr, pNodeTp, hat⟩ =>
    obtain rfl : scan = .notified addr pNodeTp := hat
    by_cases ha : a = addr
    · -- the mark is paid for by the call that comes next
      subst ha
      have hmark := marked_iff.mpr (h.notified a pNodeTp rfl)
      have hcleared : (SigPoll.nextScan ⟨magic, pid, l, sig, pipe, .notified a pNodeTp⟩
          .clear).marked a = false := by
        rw [Bool.eq_false_iff, ne_eq, marked_iff]
        simp [SigPoll.nextScan]
      rw [debt, debt, hmark, hcleared]
      simp [SigPoll.nextScan, SigScan.owes]
    · have hmark : (SigPoll.nextScan ⟨magic, pid, l, sig, pipe, .notified addr pNodeTp⟩
          .clear).marked a = SigPoll.marked ⟨magic, pid, l, sig, pipe, .notified addr pNodeTp⟩ a :=
        marked_congr Iff.rfl (by simp [SigPoll.nextScan, ha])
      rw [debt, debt, hmark]
      simp [SigPoll.nextScan, SigScan.owes, Ne.symm ha]
  | .call addr, ⟨pNodeTp, hat⟩ =>
    obtain rfl : scan = .cleared addr pNodeTp := hat
    have howes : (SigScan.cleared addr pNodeTp).owes a =
        decide (ScanLabel.call addr = .call a) := by
      simp [SigScan.owes]
    rw [← howes]
    rfl
  | .ret, ⟨pNodeTp, hat⟩ =>
    obtain rfl : scan = .called pNodeTp := hat
    rfl
  | .done, hat =>
    obtain rfl : scan = .atNode none := hat
    rfl

theorem debt_addSignal (sigNo : ℤ) {outcome : AddOutcome}
    (hnew : outcome = .added → addr ∉ q.signalList) (a : ℕ) :
    (q.addSignal addr sigNo outcome).debt a = q.debt a := by
  have hpipe : q.withPipe.debt a = q.debt a ∧ q.withPipe.scan = q.scan := by
    unfold withPipe
    split <;> exact ⟨rfl, rfl⟩
  match outcome with
  | .noMemory => rfl
  | .noPipe => rfl
  | .noAction => exact hpipe.1
  | .added =>
    have hmark : (q.addSignal addr sigNo .added).marked a = q.marked a := by
      by_cases ha : a = addr
      · subst ha
        rw [Bool.eq_iff_iff, marked_iff, marked_iff]
        simp [SigPoll.addSignal, hnew rfl]
      · exact marked_congr (by simp [SigPoll.addSignal, ha]) (by simp [SigPoll.addSignal, ha])
    rw [debt, debt, hmark, ← hpipe.2]
    rfl

theorem debt_delSignal (q : SigPoll) (addr a : ℕ) :
    (q.delSignal addr).debt a ≤ q.debt a ∧
      (a ≠ addr → (q.delSignal addr).debt a = q.debt a) := by
  by_cases ha : a = addr
  · subst ha
    have hmark : (q.delSignal a).marked a = false := by
      rw [Bool.eq_false_iff, ne_eq, marked_iff]
      simp [SigPoll.delSignal]
    refine ⟨?_, fun hne => absurd rfl hne⟩
    rw [debt, debt, hmark, show (q.delSignal a).scan = q.scan from rfl, Bool.toNat_false]
    omega
  · have hmark : (q.delSignal addr).marked a = q.marked a :=
      marked_congr (by simp [SigPoll.delSignal, ha]) rfl
    rw [debt, debt, hmark]
    exact ⟨Nat.le_refl _, fun _ => rfl⟩

/-! ## What the thread has still to do -/

/-- The steps that `poll_sig` takes before it is through with the list. -/
def scanWork (q : SigPoll) : ℕ :=
  let left := 4 * (ahead q.signalList q.scan.pos).length
  match q.scan with
  | .idle => 0
  | .atNode _ => left + 1
  | .called _ => left + 2
  | .cleared _ _ => left + 3
  | .notified _ _ => left + 4

/-- And the steps for the bytes in the pipe: each is a wake-up and a walk. -/
def work (q : SigPoll) : ℕ := q.pipe.getD 0 * (4 * q.signalList.length + 2) + q.scanWork

theorem Ok.work_nextScan (h : q.Ok writing) {label : ScanLabel} (hvalid : q.ValidScan label) :
    (q.nextScan label).work + 1 ≤ q.work := by
  obtain ⟨magic, pid, l, sig, pipe, scan⟩ := q
  match label, hvalid with
  | .wake, ⟨hidle, n, hn⟩ =>
    obtain rfl : scan = .idle := hidle
    obtain rfl : pipe = some (n + 1) := hn
    simp only [work, SigPoll.nextScan, scanWork, SigScan.pos, ahead_head?, Option.map_some,
      Option.getD_some, Nat.add_sub_cancel]
    -- the byte that is read pays for a walk over the whole list
    have hsucc : (n + 1) * (4 * l.length + 2) = n * (4 * l.length + 2) + (4 * l.length + 2) :=
      Nat.succ_mul n _
    omega
  | .check, ⟨addr, hat⟩ =>
    obtain rfl : scan = .atNode (some addr) := hat
    -- marked or not, the walk has one node less before it
    have hsucc := ahead_succ h.nodup (h.pos addr rfl)
    simp only at hsucc
    simp only [work, SigPoll.nextScan]
    split
    · simp only [scanWork, SigScan.pos, hsucc, List.length_cons]
      omega
    · simp only [scanWork, SigScan.pos, hsucc, List.length_cons]
      omega
  | .clear, ⟨addr, pNodeTp, hat⟩ =>
    obtain rfl : scan = .notified addr pNodeTp := hat
    exact Nat.le_refl _
  | .call addr, ⟨pNodeTp, hat⟩ =>
    obtain rfl : scan = .cleared addr pNodeTp := hat
    exact Nat.le_refl _
  | .ret, ⟨pNodeTp, hat⟩ =>
    obtain rfl : scan = .called pNodeTp := hat
    exact Nat.le_refl _
  | .done, hat =>
    obtain rfl : scan = .atNode none := hat
    exact Nat.le_refl _

/-- The thread always goes on, but where it waits and the pipe is empty. -/
theorem quiet_of_not_validScan (h : ∀ label, ¬q.ValidScan label) :
    q.scan = .idle ∧ ∀ n, q.pipe ≠ some (n + 1) := by
  match hscan : q.scan with
  | .idle => exact ⟨rfl, fun n hn => h .wake ⟨hscan, n, hn⟩⟩
  | .atNode none => exact absurd hscan (h .done)
  | .atNode (some addr) => exact absurd ⟨addr, hscan⟩ (h .check)
  | .notified addr pNodeTp => exact absurd ⟨addr, pNodeTp, hscan⟩ (h .clear)
  | .cleared addr pNodeTp => exact absurd ⟨pNodeTp, hscan⟩ (h (.call addr))
  | .called pNodeTp => exact absurd ⟨pNodeTp, hscan⟩ (h .ret)

end SigPoll

/-! ## All polls -/

namespace SigSystem

variable {s t : SigSystem} {label : SigLabel}

/-- The handler is about to write into the pipe of the poll. -/
def Writing (s : SigSystem) (p : ℕ) : Prop := ∃ h ∈ s.handler, h.writing = some p

def Inv (s : SigSystem) : Prop := ∀ p, (s.poll p).Ok (s.Writing p)

theorem Fresh.inv (h : s.Fresh) : s.Inv := fun p => by
  have hlist := h.list p
  have hscan := h.scan p
  constructor
  · simp [hlist]
  · exact fun hne => absurd hlist hne
  · simp [hscan, SigScan.pos]
  · simp [hscan]
  · simp [hlist]

theorem poll_setPoll (s : SigSystem) (p p' : ℕ) (q : SigPoll) :
    (s.setPoll p q).poll p' = if p' = p then q else s.poll p' :=
  Function.update_apply s.poll p q p'

/-- A step changes one poll, and what the handler is about to do for the others it was about to
do. -/
theorem Inv.setPoll (h : s.Inv) {p : ℕ} {q : SigPoll} {handler : Option SigHandler}
    {pollList : List ℕ} (hq : q.Ok (∃ h ∈ handler, h.writing = some p))
    (hothers : ∀ p' ≠ p, s.Writing p' → ∃ h ∈ handler, h.writing = some p') :
    Inv { s.setPoll p q with handler := handler, pollList := pollList } := by
  intro p'
  change ((s.setPoll p q).poll p').Ok (∃ h ∈ handler, h.writing = some p')
  rw [poll_setPoll]
  split
  · next hp => exact hp ▸ hq
  · next hne => exact (h p').mono (hothers p' hne)

/-- The handler, between two polls, is about to write into none. -/
theorem Inv.of_not_writing (h : s.Inv) (hwriting : ∀ p, ¬s.Writing p)
    (handler : Option SigHandler) : Inv { s with handler := handler } :=
  fun p => (h p).mono fun hp => absurd hp (hwriting p)

theorem not_writing {signum : ℤ} {rest : List ℕ} (h : s.handler = some ⟨signum, rest, none⟩)
    (p : ℕ) : ¬s.Writing p := by
  rintro ⟨handler, hmem, hwriting⟩
  obtain rfl := Option.some.inj (h.symm.trans hmem)
  simp at hwriting

theorem Inv.next (h : s.Inv) (hvalid : s.Valid label) (hkeeps : keepsWalk s label) :
    (s.next label).Inv := by
  match label, hvalid, hkeeps with
  | .deliver signum, hnone, _ =>
    refine h.of_not_writing (fun p hp => ?_) _
    obtain ⟨handler, hmem, -⟩ := hp
    simp [show s.handler = none from hnone] at hmem
  | .mark p addr, ⟨signum, rest, hhandler, _⟩, _ =>
    refine h.setPoll (((h p).mark addr).mono fun _ => ?_) fun p' _ hp' => ?_
    · exact ⟨⟨signum, rest, some p⟩, Option.map_eq_some_iff.mpr ⟨_, hhandler, rfl⟩, rfl⟩
    · exact absurd hp' (not_writing hhandler p')
  | .skip _, ⟨_, _, hhandler, _⟩, _ => exact h.of_not_writing (not_writing hhandler) _
  | .write p full, ⟨⟨signum, rest, hhandler⟩, hfull⟩, _ =>
    refine h.setPoll (((h p).write hfull).mono False.elim) fun p' hne hp' => ?_
    obtain ⟨handler, hmem, hwriting⟩ := hp'
    obtain rfl := Option.some.inj (hhandler.symm.trans hmem)
    exact absurd (Option.some.inj hwriting).symm hne
  | .leave, ⟨_, hhandler⟩, _ => exact h.of_not_writing (not_writing hhandler) _
  -- the thread and the callers of the two functions do not touch what the handler is about to do
  | .scan p label, hvalid, _ => exact h.setPoll ((h p).nextScan hvalid) fun _ _ hp => hp
  | .add p addr sigNo outcome, ⟨_, hfree, hpipe, hnew⟩, _ =>
    exact h.setPoll ((h p).addSignal hfree sigNo hpipe hnew) fun _ _ hp => hp
  | .del p addr, ⟨hfree, _⟩, hkeeps =>
    exact h.setPoll ((h p).delSignal hfree fun pNodeTp hscan => (hkeeps pNodeTp hscan).1)
      fun _ _ hp => hp

/-- What is owed to a node. -/
def debt (s : SigSystem) (p addr : ℕ) : ℕ := (s.poll p).debt addr

/-- The label calls the function of the node. -/
def calls (p addr : ℕ) (label : SigLabel) : Bool := decide (label = .scan p (.call addr))

/-- The label marks the node. -/
def marks (p addr : ℕ) (label : SigLabel) : Bool := decide (label = .mark p addr)

/-- A step that changes a poll changes the debts to its nodes only. -/
theorem debt_setPoll {p p' addr : ℕ} {q : SigPoll} {handler : Option SigHandler}
    {pollList : List ℕ} :
    debt { s.setPoll p q with handler := handler, pollList := pollList } p' addr =
      if p' = p then q.debt addr else s.debt p' addr := by
  change ((s.setPoll p q).poll p').debt addr = _
  rw [poll_setPoll]
  split <;> rfl

/-- A call is for what was owed, and what is owed was marked. -/
theorem Inv.debt_next_le (h : s.Inv) (hvalid : s.Valid label) (p addr : ℕ) :
    (s.next label).debt p addr + (calls p addr label).toNat ≤
      s.debt p addr + (marks p addr label).toNat := by
  match label, hvalid with
  | .deliver _, _ | .skip _, _ | .leave, _ => simp [SigSystem.next, visited, debt, calls, marks]
  | .mark p' a, _ =>
    -- a mark adds one call, or none if the node was marked already
    have hmark := (SigPoll.debt_mark (s.poll p) a addr).2
    rw [SigSystem.next, visited, debt_setPoll]
    by_cases hp : p = p'
    · subst hp
      simpa [calls, marks, debt, eq_comm] using hmark
    · simp [calls, marks, hp]
  | .write p' full, _ =>
    rw [SigSystem.next, debt_setPoll]
    split
    · next hp => simp [hp, SigPoll.debt_write, calls, marks, debt]
    · simp [calls, marks]
  | .scan p' label, hvalid =>
    have hscan := (h p').debt_nextScan hvalid addr
    rw [SigSystem.next, debt_setPoll]
    by_cases hp : p = p'
    · subst hp
      simpa [calls, marks, debt] using hscan.le
    · simp [calls, marks, hp, Ne.symm hp]
  | .add p' a sigNo outcome, ⟨_, _, _, hnew⟩ =>
    rw [SigSystem.next, debt_setPoll]
    split
    · next hp => simp [hp, SigPoll.debt_addSignal sigNo hnew, calls, marks, debt]
    · simp [calls, marks]
  | .del p' a, _ =>
    have hdel := (SigPoll.debt_delSignal (s.poll p') a addr).1
    rw [SigSystem.next, debt_setPoll]
    split
    · next hp => simpa [hp, calls, marks, debt] using hdel
    · simp [calls, marks]

/-- What is owed stays owed, but for a call of this function and the end of this node. -/
theorem Inv.le_debt_next (h : s.Inv) (hvalid : s.Valid label) (p addr : ℕ) :
    (calls p addr label = true ∨ label = .del p addr) ∨
      s.debt p addr ≤ (s.next label).debt p addr := by
  match label, hvalid with
  | .deliver _, _ | .skip _, _ | .leave, _ => exact .inr (Nat.le_refl _)
  | .mark p' a, _ =>
    refine .inr ?_
    rw [SigSystem.next, visited, debt_setPoll]
    split
    · next hp => exact hp ▸ (SigPoll.debt_mark _ a addr).1
    · exact Nat.le_refl _
  | .write p' full, _ =>
    refine .inr ?_
    rw [SigSystem.next, debt_setPoll]
    split
    · next hp => exact hp ▸ (SigPoll.debt_write _ full addr).ge
    · exact Nat.le_refl _
  | .scan p' label, hvalid =>
    have hscan := (h p').debt_nextScan hvalid addr
    rw [SigSystem.next, debt_setPoll]
    -- only the call of this function pays the debt
    by_cases hcalls : calls p addr (.scan p' label) = true
    · exact .inl (.inl hcalls)
    · refine .inr ?_
      split
      · next hp =>
        subst hp
        have hlabel : ¬label = .call addr := by simpa [calls] using hcalls
        simpa [hlabel, debt] using hscan.ge
      · exact Nat.le_refl _
  | .add p' a sigNo outcome, ⟨_, _, _, hnew⟩ =>
    refine .inr ?_
    rw [SigSystem.next, debt_setPoll]
    split
    · next hp => exact hp ▸ (SigPoll.debt_addSignal sigNo hnew addr).ge
    · exact Nat.le_refl _
  | .del p' a, _ =>
    by_cases hdel : SigLabel.del p' a = .del p addr
    · exact .inl (.inr hdel)
    · -- another node, maybe of the same poll
      refine .inr ?_
      rw [SigSystem.next, debt_setPoll]
      split
      · next hp =>
        subst hp
        have hne : addr ≠ a := fun heq => hdel (by rw [heq])
        exact ((SigPoll.debt_delSignal _ a addr).2 hne).ge
      · exact Nat.le_refl _

theorem debt_pos_of_mark {p addr : ℕ} (hvalid : s.Valid (.mark p addr)) :
    0 < (s.next (.mark p addr)).debt p addr := by
  obtain ⟨_, _, _, _, _, hfind, _⟩ := hvalid
  rw [SigSystem.next, visited, debt_setPoll, if_pos rfl]
  exact SigPoll.debt_mark_pos (List.mem_of_find?_eq_some hfind)

/-- Nothing is owed to a node that is new, whatever node had its memory before. -/
theorem debt_of_added {p addr : ℕ} {sigNo : ℤ} (hvalid : s.Valid (.add p addr sigNo .added)) :
    (s.next (.add p addr sigNo .added)).debt p addr = 0 := by
  obtain ⟨-, hfree, -, hnew⟩ := hvalid
  have hmarked : (s.poll p).marked addr = false := by
    simp [SigPoll.marked, hnew rfl]
  have howes : (s.poll p).scan.owes addr = false := by
    obtain hidle | ⟨pNodeTp, hcalled⟩ := hfree
    · rw [hidle]
      rfl
    · rw [hcalled]
      rfl
  rw [SigSystem.next, debt_setPoll, if_pos rfl, SigPoll.debt_addSignal sigNo hnew, SigPoll.debt,
    hmarked, howes]
  rfl

theorem Inv.debt_eq_zero (h : s.Inv) {p : ℕ} (hquiet : s.Quiet p) (addr : ℕ) :
    s.debt p addr = 0 := by
  obtain ⟨hidle, hpipe, hhandler⟩ := hquiet
  have hwriting : s.Writing p → False := fun ⟨handler, hmem, hp⟩ => hhandler handler hmem hp
  exact ((h p).mono hwriting).debt_eq_zero hidle hpipe addr

theorem Inv.step (h : s.Inv) (hstep : SigStep s label t ∧ keepsWalk s label) : t.Inv := by
  obtain ⟨⟨hvalid, rfl⟩, hkeeps⟩ := hstep
  exact h.next hvalid hkeeps

/-- Where nothing is owed to a node, its function is called at most as often as it is marked. -/
theorem Inv.calls_le (h : s.Inv) {p addr : ℕ} (hdebt : s.debt p addr = 0)
    {r : List (SigLabel × SigSystem)} (hr : IsRun SigStep s r) (hg : Guarded keepsWalk s r) :
    (r.map Prod.fst).count (.scan p (.call addr)) ≤ (r.map Prod.fst).count (.mark p addr) := by
  have hstep : ∀ (s : SigSystem) label t, s.Inv → SigStep s label t ∧ keepsWalk s label →
      t.debt p addr + (calls p addr label).toNat ≤ s.debt p addr + (marks p addr label).toNat ∧
        t.Inv := by
    intro s label t h hst
    refine ⟨?_, h.step hst⟩
    obtain ⟨⟨hvalid, rfl⟩, -⟩ := hst
    exact h.debt_next_le hvalid p addr
  have hcount := countP_add_le (along_of_invariant hstep h (hr.and hg))
  rw [hdebt, Nat.zero_add] at hcount
  exact (Nat.le_add_left _ _).trans hcount

end SigSystem

open SigSystem

/-! ## Two signals -/

/-- A process with polls to which no signal was added. -/
def quietPolls : SigSystem where
  getpid := 1
  poll _ := ⟨POLL_MAGIC, 1, [], fun _ => ⟨0, false⟩, none, .idle⟩
  pollList := []
  handler := none

theorem fresh_quietPolls : quietPolls.Fresh := ⟨rfl, fun _ => rfl, fun _ => rfl⟩

/-- The second signal comes when the mark of the first is cleared, and the function not called. -/
def secondSignal : List SigLabel :=
  [.add 0 100 15 .added, .deliver 15, .mark 0 100, .write 0 false, .leave, .scan 0 .wake,
    .scan 0 .check, .scan 0 .clear, .deliver 15]

def afterSignal : List SigLabel := [.mark 0 100, .write 0 false, .leave]

def scanAgain : List SigLabel :=
  [.scan 0 (.call 100), .scan 0 .ret, .scan 0 .done, .scan 0 .wake, .scan 0 .check,
    .scan 0 .clear, .scan 0 (.call 100), .scan 0 .ret, .scan 0 .done]

theorem isRun_secondSignal : IsRun SigStep quietPolls
    (runOf SigSystem.next quietPolls (secondSignal ++ afterSignal)) :=
  ⟨⟨⟨.inr rfl, .inl rfl, fun _ => rfl, fun _ => by decide⟩, rfl⟩, ⟨rfl, rfl⟩,
    ⟨⟨15, [], rfl, rfl, rfl, rfl, nofun⟩, rfl⟩, ⟨⟨⟨15, [], rfl⟩, nofun⟩, rfl⟩, ⟨⟨15, rfl⟩, rfl⟩,
    ⟨⟨rfl, 0, rfl⟩, rfl⟩, ⟨⟨100, rfl⟩, rfl⟩, ⟨⟨100, none, rfl⟩, rfl⟩, ⟨rfl, rfl⟩,
    ⟨⟨15, [], rfl, rfl, rfl, rfl, nofun⟩, rfl⟩, ⟨⟨⟨15, [], rfl⟩, nofun⟩, rfl⟩, ⟨⟨15, rfl⟩, rfl⟩,
    trivial⟩

theorem guarded_secondSignal : Guarded keepsWalk quietPolls
    (runOf SigSystem.next quietPolls (secondSignal ++ afterSignal)) :=
  ⟨trivial, trivial, trivial, trivial, trivial, trivial, trivial, trivial, trivial, trivial,
    trivial, trivial, trivial⟩

/-- The polls when the second signal has come. -/
def secondPolls : SigSystem :=
  final quietPolls (runOf SigSystem.next quietPolls (secondSignal ++ afterSignal))

theorem isRun_scanAgain : IsRun SigStep secondPolls (runOf SigSystem.next secondPolls scanAgain) :=
  ⟨⟨⟨none, rfl⟩, rfl⟩, ⟨⟨none, rfl⟩, rfl⟩, ⟨rfl, rfl⟩, ⟨⟨rfl, 0, rfl⟩, rfl⟩, ⟨⟨100, rfl⟩, rfl⟩,
    ⟨⟨100, none, rfl⟩, rfl⟩, ⟨⟨none, rfl⟩, rfl⟩, ⟨⟨none, rfl⟩, rfl⟩, ⟨rfl, rfl⟩, trivial⟩

def signalRun : List (SigLabel × SigSystem) :=
  runOf SigSystem.next quietPolls (secondSignal ++ afterSignal) ++
    runOf SigSystem.next secondPolls scanAgain

theorem isRun_signalRun : IsRun SigStep quietPolls signalRun :=
  along_append.mpr ⟨isRun_secondSignal, isRun_scanAgain⟩

theorem guarded_signalRun : Guarded keepsWalk quietPolls signalRun :=
  along_append.mpr ⟨guarded_secondSignal, trivial, trivial, trivial, trivial, trivial, trivial,
    trivial, trivial, trivial, trivial⟩

/-! ## Marks and calls -/

variable {s₀ : SigSystem} {r r' : List (SigLabel × SigSystem)}

/-- No function of a signal is called more often than its node was marked, in the whole run and
from any addition of the node on: there are no calls for bytes that are left over, for nodes that
the signal is not meant for, or for new nodes at an old address. -/
theorem signal_calls_le (hs : s₀.Fresh) (hr : IsRun SigStep s₀ r)
    (hg : Guarded keepsWalk s₀ r) (p addr : ℕ) :
    (r.map Prod.fst).count (.scan p (.call addr)) ≤ (r.map Prod.fst).count (.mark p addr) ∧
      ∀ front sigNo t back, r = front ++ (.add p addr sigNo .added, t) :: back →
        (back.map Prod.fst).count (.scan p (.call addr)) ≤
          (back.map Prod.fst).count (.mark p addr) := by
  constructor
  · have hfresh : s₀.debt p addr = 0 := by
      have hmarked : (s₀.poll p).marked addr = false := by
        simp [SigPoll.marked, hs.list p]
      rw [debt, SigPoll.debt, hmarked, hs.scan p]
      rfl
    exact hs.inv.calls_le hfresh hr hg
  · rintro front sigNo t back rfl
    obtain ⟨hfront, hadd, hback⟩ := along_append.mp hr
    obtain ⟨hgfront, hgadd, hgback⟩ := along_append.mp hg
    have hbefore : (final s₀ front).Inv :=
      (always_of_guarded (fun _ _ _ h hg hst => h.step ⟨hst, hg⟩) hs.inv hfront hgfront).last
    have hafter : t.Inv := hbefore.step ⟨hadd, hgadd⟩
    obtain ⟨hvalid, rfl⟩ := hadd
    exact hafter.calls_le (debt_of_added hvalid) hback hgback

/-- Both signals are followed by a call. -/
theorem signal_calls_le_secondSignal :
    (signalRun.tail.map Prod.fst).count (.scan 0 (.call 100)) = 2 ∧
      (signalRun.tail.map Prod.fst).count (.scan 0 (.call 100)) ≤
        (signalRun.tail.map Prod.fst).count (.mark 0 100) :=
  ⟨by decide, (signal_calls_le fresh_quietPolls isRun_signalRun guarded_signalRun 0 100).2 [] 15 _
    signalRun.tail rfl⟩

/-- No mark is lost. When the handler is through, and then the thread of a poll runs alone, it
stops after no more steps than `work` says; and when it has stopped, for every mark of a node in
the whole run, whatever was interleaved, the function was called after it, or the node deleted. -/
theorem signal_called (hs : s₀.Fresh) (hr : IsRun SigStep s₀ r) (hg : Guarded keepsWalk s₀ r)
    (hhandler : (final s₀ r).handler = none) {p : ℕ} (hr' : IsRun SigStep (final s₀ r) r')
    (hscan : ∀ x ∈ r', ∃ label, x.1 = .scan p label) :
    r'.length ≤ ((final s₀ r).poll p).work ∧
      ((∀ label, ¬(final s₀ (r ++ r')).Valid (.scan p label)) →
        ∀ front addr t back, r = front ++ (.mark p addr, t) :: back →
          ∃ x ∈ back ++ r', x.1 = .scan p (.call addr) ∨ x.1 = .del p addr) := by
  have hkeep : ∀ (s : SigSystem) label t, s.Inv → keepsWalk s label → SigStep s label t → t.Inv :=
    fun _ _ _ h hg hst => h.step ⟨hst, hg⟩
  have hinv : (final s₀ r).Inv := (always_of_guarded hkeep hs.inv hr hg).last
  have hlabels : Guarded (fun _ label => ∃ l, label = .scan p l) (final s₀ r) r' :=
    guarded_of_forall _ hscan
  have hkeeps : Guarded keepsWalk (final s₀ r) r' := hlabels.imp fun _ _ _ ⟨_, hl⟩ => hl ▸ trivial
  constructor
  · have hstep : ∀ (s : SigSystem) label t, s.Inv → SigStep s label t ∧ (∃ l, label = .scan p l) →
        (t.poll p).work + 1 ≤ (s.poll p).work + 0 ∧ t.Inv := by
      rintro s label t h ⟨hst, l, rfl⟩
      refine ⟨?_, h.step ⟨hst, trivial⟩⟩
      obtain ⟨hvalid, rfl⟩ := hst
      rw [SigSystem.next, poll_setPoll, if_pos rfl]
      exact (h p).work_nextScan hvalid
    have hlen := length_le (along_of_invariant hstep hinv (hr'.and hlabels))
    simpa using hlen
  · intro hstop front addr t back hsplit
    have hsplit' : r ++ r' = front ++ (.mark p addr, t) :: (back ++ r') := by
      rw [hsplit, List.append_assoc, List.cons_append]
    have hrun : IsRun SigStep s₀ (front ++ (.mark p addr, t) :: (back ++ r')) :=
      hsplit' ▸ along_append.mpr ⟨hr, hr'⟩
    have hguarded : Guarded keepsWalk s₀ (front ++ (.mark p addr, t) :: (back ++ r')) :=
      hsplit' ▸ along_append.mpr ⟨hg, hkeeps⟩
    have hend : final s₀ (r ++ r') = final t (back ++ r') := by
      rw [hsplit', final_append]
      rfl
    -- at the end the thread waits, and the handler has nothing to write
    have hnone : (final s₀ (r ++ r')).handler = none := by
      have hscans : ∀ (s : SigSystem) label t, s.handler = none → (∃ l, label = .scan p l) →
          SigStep s label t → t.handler = none := by
        rintro s label t h ⟨l, rfl⟩ ⟨-, rfl⟩
        exact h
      rw [final_append]
      exact (always_of_guarded hscans hhandler hr' hlabels).last
    have hquiet : (final s₀ (r ++ r')).Quiet p := by
      obtain ⟨hidle, hpipe⟩ := SigPoll.quiet_of_not_validScan hstop
      exact ⟨hidle, hpipe, by simp [hnone]⟩
    have hinvEnd : (final s₀ (r ++ r')).Inv :=
      (always_of_guarded hkeep hs.inv (along_append.mpr ⟨hr, hr'⟩)
        (along_append.mpr ⟨hg, hkeeps⟩)).last
    -- the mark is owed, until the function is called or the node is deleted
    obtain ⟨hfront, hmark, hrest⟩ := along_append.mp hrun
    obtain ⟨hgfront, hgmark, hgrest⟩ := along_append.mp hguarded
    have hbefore : (final s₀ front).Inv := (always_of_guarded hkeep hs.inv hfront hgfront).last
    have howed : 0 < t.debt p addr := by
      obtain ⟨hvalid, rfl⟩ := hmark
      exact debt_pos_of_mark hvalid
    have hpaid : ∀ (s : SigSystem) label t, s.Inv → SigStep s label t ∧ keepsWalk s label →
        (0 < s.debt p addr →
          (label = .scan p (.call addr) ∨ label = .del p addr) ∨ 0 < t.debt p addr) ∧ t.Inv := by
      intro s label t h hst
      refine ⟨fun hpos => ?_, h.step hst⟩
      obtain ⟨⟨hvalid, rfl⟩, -⟩ := hst
      exact (h.le_debt_next hvalid p addr).imp (Or.imp_left of_decide_eq_true) hpos.trans_le
    refine exists_of_owed hpaid (hbefore.step ⟨hmark, hgmark⟩) (hrest.and hgrest) howed ?_
    rw [← hend, hinvEnd.debt_eq_zero hquiet]
    exact Nat.lt_irrefl 0

theorem signal_called_secondSignal :
    ∃ x ∈ (runOf SigSystem.next quietPolls (secondSignal ++ afterSignal)).drop 10 ++
        runOf SigSystem.next secondPolls scanAgain,
      x.1 = .scan 0 (.call 100) ∨ x.1 = .del 0 100 := by
  have hscan : ∀ x ∈ runOf SigSystem.next secondPolls scanAgain, ∃ label, x.1 = .scan 0 label := by
    simp [scanAgain, runOf]
  have hidle : ((final quietPolls (runOf SigSystem.next quietPolls (secondSignal ++ afterSignal) ++
      runOf SigSystem.next secondPolls scanAgain)).poll 0).scan = .idle := rfl
  refine (signal_called fresh_quietPolls isRun_secondSignal guarded_secondSignal rfl
    isRun_scanAgain hscan).2 ?_ (runOf SigSystem.next quietPolls secondSignal) 100 _ _ rfl
  rintro (_ | _ | _ | addr | _ | _) hvalid
  · obtain ⟨-, n, hn⟩ := hvalid
    exact absurd (Option.some.inj hn) (Nat.succ_ne_zero n).symm
  · obtain ⟨addr, hat⟩ := hvalid
    simp [hidle] at hat
  · obtain ⟨addr, pNodeTp, hat⟩ := hvalid
    simp [hidle] at hat
  · obtain ⟨pNodeTp, hat⟩ := hvalid
    simp [hidle] at hat
  · obtain ⟨pNodeTp, hat⟩ := hvalid
    simp [hidle] at hat
  · exact absurd (hidle.symm.trans hvalid) (by simp)

end Gendo
