import Mathlib.Data.List.Basic
import Mathlib.Data.List.Infix

/-!
# FIFO channels that remember their traffic

A channel is the list of items sent, the list received and the queue between them.
Its well-formedness is a field, so every channel that can be built has lost, repeated
and reordered nothing.
-/

namespace LinuxTemplates.FifoChannels

universe u

structure Channel (α : Type u) where
  sent : List α
  received : List α
  queue : List α
  conserved : received ++ queue = sent

namespace Channel
variable {α : Type u}

@[simp] def empty : Channel α := ⟨[], [], [], rfl⟩

/-- Appends items at the back of the queue. -/
def send (c : Channel α) (xs : List α) : Channel α :=
  ⟨c.sent ++ xs, c.received, c.queue ++ xs, by rw [← c.conserved, List.append_assoc]⟩

/-- Takes up to `k` items from the front of the queue. -/
def receive (c : Channel α) (k : ℕ) : Channel α :=
  ⟨c.sent, c.received ++ c.queue.take k, c.queue.drop k, by
    rw [List.append_assoc, List.take_append_drop, c.conserved]⟩

@[simp] theorem send_sent (c : Channel α) (xs : List α) : (c.send xs).sent = c.sent ++ xs := rfl
@[simp] theorem send_received (c : Channel α) (xs : List α) :
    (c.send xs).received = c.received := rfl
@[simp] theorem send_queue (c : Channel α) (xs : List α) :
    (c.send xs).queue = c.queue ++ xs := rfl
@[simp] theorem receive_sent (c : Channel α) (k : ℕ) : (c.receive k).sent = c.sent := rfl
@[simp] theorem receive_received (c : Channel α) (k : ℕ) :
    (c.receive k).received = c.received ++ c.queue.take k := rfl
@[simp] theorem receive_queue (c : Channel α) (k : ℕ) :
    (c.receive k).queue = c.queue.drop k := rfl

theorem received_prefix (c : Channel α) : c.received <+: c.sent :=
  ⟨c.queue, c.conserved⟩

/-- An empty queue means that everything sent has been received. -/
theorem received_eq_sent (c : Channel α) (h : c.queue = []) : c.received = c.sent := by
  have hc := c.conserved
  rwa [h, List.append_nil] at hc

end Channel

end LinuxTemplates.FifoChannels
