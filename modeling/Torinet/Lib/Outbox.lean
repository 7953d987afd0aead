import Mathlib.Data.List.Induction

/-!
# First-in first-out sending, one element at a time

What a send queue is for: elements are sent in some order, the front one is handed over as soon as it is at the front,
and leaves when its delivery is acknowledged. An `Outbox` says where this stands: the elements sent so far, how many of
them are done, and whether a delivery has failed; after a failure nothing is handed over any more.

The waiting elements (`queue`), the one in flight (`inFlight`) and the ones handed over so far (`handed`) are read off,
and each operation changes them as a queue implementation does: sending hands over the element iff nothing waits
(`handed_push`), an acknowledgement hands over the next one (`handed_ack`). Nothing is lost, repeated or reordered,
because `handed` is a part of `sent` taken from its start.
-/

namespace Lib

/-- The progress of sending elements one at a time. -/
structure Outbox (α : Type*) where
  sent : List α
  done : Nat
  failed : Bool
  done_le : done ≤ sent.length
  failed_lt : failed = true → done < sent.length

namespace Outbox

variable {α : Type*}

def empty : Outbox α := ⟨[], 0, false, Nat.le_refl _, by simp⟩

/-- Another element is sent. -/
def push (c : Outbox α) (a : α) : Outbox α where
  sent := c.sent ++ [a]
  done := c.done
  failed := c.failed
  done_le := by have := c.done_le; simp only [List.length_append]; omega
  failed_lt h := by have := c.failed_lt h; simp only [List.length_append]; omega

/-- The element in flight is done. -/
def ack (c : Outbox α) : Outbox α :=
  if h : c.done < c.sent.length ∧ c.failed = false then ⟨c.sent, c.done + 1, c.failed, h.1, by simp [h.2]⟩ else c

/-- The delivery of the element in flight fails. -/
def fail (c : Outbox α) : Outbox α :=
  if h : c.done < c.sent.length then ⟨c.sent, c.done, true, c.done_le, fun _ => h⟩ else c

/-- The elements that are not done. -/
def queue (c : Outbox α) : List α := c.sent.drop c.done

/-- The element whose delivery is going on. -/
def inFlight (c : Outbox α) : Option α := if c.failed then none else c.queue.head?

/-- The elements handed over so far: the ones done and the front of the queue. -/
def handed (c : Outbox α) : List α := c.sent.take (c.done + 1)

section Ops

variable {c : Outbox α} {a : α} {q : List α}

theorem queue_eq_nil : c.queue = [] ↔ c.sent.length = c.done := by
  have := c.done_le
  rw [queue, List.drop_eq_nil_iff]
  omega

theorem done_lt_of_queue (h : c.queue = a :: q) : c.done < c.sent.length := by
  by_contra hn
  rw [queue, List.drop_eq_nil_of_le (by omega)] at h
  cases h

/-- A failed outbox has something waiting for ever. -/
theorem queue_ne_nil_of_failed (h : c.failed = true) : c.queue ≠ [] := fun hq => by
  have := c.failed_lt h
  rw [queue_eq_nil] at hq
  omega

theorem take_append_queue (c : Outbox α) : c.sent.take c.done ++ c.queue = c.sent := List.take_append_drop _ _

/-- The elements handed over are those done and the front of the queue. -/
theorem handed_eq (c : Outbox α) : c.handed = c.sent.take c.done ++ c.queue.head?.toList := by
  rw [handed, queue, List.take_add_one, List.head?_drop]

theorem handed_prefix (c : Outbox α) : c.handed <+: c.sent := List.take_prefix _ _

@[simp] theorem sent_push : (c.push a).sent = c.sent ++ [a] := rfl

@[simp] theorem done_push : (c.push a).done = c.done := rfl

@[simp] theorem failed_push : (c.push a).failed = c.failed := rfl

@[simp] theorem queue_push : (c.push a).queue = c.queue ++ [a] := by
  rw [queue, sent_push, done_push, List.drop_append_of_le_length c.done_le, queue]

/-- Sending hands the element over iff nothing waits. -/
theorem handed_push : (c.push a).handed = c.handed ++ if c.queue = [] then [a] else [] := by
  have hle := c.done_le
  simp only [handed, sent_push, done_push]
  split
  · rename_i hq
    rw [queue_eq_nil] at hq
    rw [List.take_of_length_le (by simp; omega), List.take_of_length_le (by omega)]
  · rename_i hq
    rw [queue_eq_nil] at hq
    rw [List.take_append_of_le_length (by omega), List.append_nil]

theorem ack_eq (hq : c.queue = a :: q) (hf : c.failed = false) :
    (c.ack).sent = c.sent ∧ (c.ack).done = c.done + 1 ∧ (c.ack).failed = false := by
  have := done_lt_of_queue hq
  rw [ack, dif_pos ⟨this, hf⟩]
  exact ⟨rfl, rfl, hf⟩

theorem queue_ack (hq : c.queue = a :: q) (hf : c.failed = false) : (c.ack).queue = q := by
  obtain ⟨hs, hd, -⟩ := ack_eq hq hf
  rw [queue, hs, hd, ← List.tail_drop, ← queue, hq, List.tail_cons]

/-- An acknowledgement hands over the next element, if there is one. -/
theorem handed_ack (hq : c.queue = a :: q) (hf : c.failed = false) : (c.ack).handed = c.handed ++ q.head?.toList := by
  obtain ⟨hs, hd, -⟩ := ack_eq hq hf
  rw [handed_eq, queue_ack hq hf, hs, hd, handed_eq, hq, List.head?_cons, List.take_add_one, ← List.head?_drop,
    ← queue, hq, List.head?_cons]

theorem fail_eq (hq : c.queue = a :: q) :
    (c.fail).sent = c.sent ∧ (c.fail).done = c.done ∧ (c.fail).failed = true := by
  rw [fail, dif_pos (done_lt_of_queue hq)]
  exact ⟨rfl, rfl, rfl⟩

theorem queue_fail (hq : c.queue = a :: q) : (c.fail).queue = c.queue := by
  obtain ⟨hs, hd, -⟩ := fail_eq hq
  rw [queue, queue, hs, hd]

theorem handed_fail (hq : c.queue = a :: q) : (c.fail).handed = c.handed := by
  obtain ⟨hs, hd, -⟩ := fail_eq hq
  rw [handed, handed, hs, hd]

end Ops

/-! ## Histories -/

inductive Op (α : Type*)
  | push (a : α)
  | ack
  | fail

/-- The outbox after an operation. -/
def apply (c : Outbox α) : Op α → Outbox α
  | .push a => c.push a
  | .ack => c.ack
  | .fail => c.fail

/-- The outbox after a history of operations. -/
def after (ops : List (Op α)) : Outbox α := ops.foldl apply empty

/-- The element an operation sends. -/
def Op.pushed : Op α → Option α
  | .push a => some a
  | _ => none

@[simp] theorem after_snoc (ops : List (Op α)) (op : Op α) : after (ops ++ [op]) = (after ops).apply op := by
  simp [after]

theorem sent_apply (c : Outbox α) (op : Op α) : (c.apply op).sent = c.sent ++ op.pushed.toList := by
  cases op with
  | push a => rfl
  | ack => simp only [apply, ack, Op.pushed]; split <;> simp
  | fail => simp only [apply, fail, Op.pushed]; split <;> simp

/-- Nothing but what was sent is ever handed over. -/
theorem sent_after (ops : List (Op α)) : (after ops).sent = ops.filterMap Op.pushed := by
  induction ops using List.reverseRecOn with
  | nil => rfl
  | append_singleton ops op ih => rw [after_snoc, sent_apply, ih]; cases op <;> simp [Op.pushed]

/-- An outbox has failed only through a failure. -/
theorem failed_after {ops : List (Op α)} (h : Op.fail ∉ ops) : (after ops).failed = false := by
  induction ops using List.reverseRecOn with
  | nil => rfl
  | append_singleton ops op ih =>
    rw [after_snoc]
    have ih := ih fun hm => h (List.mem_append_left _ hm)
    cases op with
    | push a => exact ih
    | ack => simp only [apply, ack]; split <;> exact ih
    | fail => exact absurd (by simp) h

end Outbox

end Lib
