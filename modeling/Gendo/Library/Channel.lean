import Mathlib.Data.List.Infix

/-!
# First-in first-out channels

A channel is the history of a queue: what was sent, and what was received. Only a prefix of what
was sent can have been received, and the structure carries that fact, so a channel that invents,
repeats or reorders an item cannot be built. What is still in transit is `pending`.

`Channel.send` and `Channel.receive` are the two operations, and each comes with what it does to
`sent`, `received` and `pending`.
-/

/-- The history of a queue: what was sent and the prefix of it that was received. -/
structure Channel (α : Type*) where
  /-- Everything sent, oldest first. -/
  sent : List α
  /-- Everything received, oldest first. -/
  received : List α
  /-- The items come out in the order in which they went in. -/
  received_prefix : received <+: sent

namespace Channel

variable {α : Type*}

/-- A channel on which nothing was sent. -/
def empty : Channel α := ⟨[], [], List.prefix_rfl⟩

/-- What was sent and not yet received, oldest first. -/
def pending (c : Channel α) : List α := c.sent.drop c.received.length

/-- Send one item. -/
def send (c : Channel α) (x : α) : Channel α :=
  ⟨c.sent ++ [x], c.received, c.received_prefix.trans (List.prefix_append _ _)⟩

/-- The items received, followed by those in transit, are the items sent. -/
theorem received_append_pending (c : Channel α) : c.received ++ c.pending = c.sent := by
  obtain ⟨rest, hrest⟩ := c.received_prefix
  simp [pending, ← hrest]

/-- A channel whose history splits as given has the second part in transit. -/
theorem pending_eq_of_append {c : Channel α} {rest : List α}
    (h : c.received ++ rest = c.sent) : c.pending = rest := by
  simp [pending, ← h]

/-- Receive the oldest item in transit. -/
def receive (c : Channel α) (x : α) (rest : List α) (h : c.pending = x :: rest) : Channel α :=
  ⟨c.sent, c.received ++ [x], by
    refine ⟨rest, ?_⟩
    rw [List.append_assoc, List.singleton_append, ← h, c.received_append_pending]⟩

@[simp]
theorem sent_send (c : Channel α) (x : α) : (c.send x).sent = c.sent ++ [x] := rfl

@[simp]
theorem received_send (c : Channel α) (x : α) : (c.send x).received = c.received := rfl

/-- Sending adds the item at the end of what is in transit. -/
@[simp]
theorem pending_send (c : Channel α) (x : α) : (c.send x).pending = c.pending ++ [x] := by
  apply pending_eq_of_append
  rw [received_send, sent_send, ← List.append_assoc, c.received_append_pending]

section receive

variable {c : Channel α} {x : α} {rest : List α} (h : c.pending = x :: rest)

@[simp]
theorem sent_receive : (c.receive x rest h).sent = c.sent := rfl

@[simp]
theorem received_receive : (c.receive x rest h).received = c.received ++ [x] := rfl

/-- Receiving takes the oldest item out of what is in transit. -/
@[simp]
theorem pending_receive : (c.receive x rest h).pending = rest := by
  apply pending_eq_of_append
  rw [received_receive, sent_receive, List.append_assoc, List.singleton_append, ← h,
    c.received_append_pending]

end receive

end Channel
