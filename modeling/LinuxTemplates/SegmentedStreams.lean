import LinuxTemplates.FifoChannels

/-!
# Reliable streams with arbitrary segmentation

What has been sent travels in order and arrives in pieces of any size; only what has
arrived can be taken. The end of a stream is an item like the others.
-/

namespace LinuxTemplates.SegmentedStreams
open FifoChannels

universe u

/-- The first `arrived` items of the queue have reached the reader. -/
structure Segmented (α : Type u) where
  channel : Channel α
  arrived : ℕ
  arrived_le : arrived ≤ channel.queue.length

namespace Segmented
variable {α : Type u}

def empty : Segmented α := ⟨.empty, 0, le_rfl⟩

def send (t : Segmented α) (xs : List α) : Segmented α :=
  ⟨t.channel.send xs, t.arrived, by
    have h := t.arrived_le
    simp only [Channel.send_queue, List.length_append]
    omega⟩

/-- A segment of `k` items arrives. -/
def deliver (t : Segmented α) (k : ℕ) : Option (Segmented α) :=
  if h : 0 < k ∧ t.arrived + k ≤ t.channel.queue.length then
    some ⟨t.channel, t.arrived + k, h.2⟩
  else none

/-- The next item at the reader, if one has arrived. -/
def head (t : Segmented α) : Option α := if t.arrived = 0 then none else t.channel.queue.head?

/-- Takes the next item. -/
def receive (t : Segmented α) : Segmented α :=
  ⟨t.channel.receive 1, t.arrived - 1, by
    have h := t.arrived_le
    simp only [Channel.receive_queue, List.length_drop]
    omega⟩

@[simp] theorem empty_channel : (empty : Segmented α).channel = .empty := rfl
@[simp] theorem send_channel (t : Segmented α) (xs : List α) :
    (t.send xs).channel = t.channel.send xs := rfl
@[simp] theorem receive_channel (t : Segmented α) : t.receive.channel = t.channel.receive 1 := rfl

theorem deliver_cases {t t' : Segmented α} {k : ℕ} (h : t.deliver k = some t') :
    0 < k ∧ t'.channel = t.channel ∧ t'.arrived = t.arrived + k := by
  simp only [deliver] at h
  split at h
  · rename_i hk
    obtain rfl := Option.some.inj h
    exact ⟨hk.1, rfl, rfl⟩
  · cases h

theorem queue_of_head {t : Segmented α} {a : α} (h : t.head = some a) :
    0 < t.arrived ∧ ∃ rest, t.channel.queue = a :: rest := by
  simp only [head] at h
  split at h
  · cases h
  · rename_i hne
    exact ⟨Nat.pos_of_ne_zero hne, List.head?_eq_some_iff.mp h⟩

/-- The item taken is the next one that was sent. -/
theorem received_receive {t : Segmented α} {a : α} (h : t.head = some a) :
    t.receive.channel.received = t.channel.received ++ [a] := by
  obtain ⟨-, rest, hq⟩ := queue_of_head h
  simp [hq]

theorem received_prefix_of_head {t : Segmented α} {a : α} (h : t.head = some a) :
    t.channel.received ++ [a] <+: t.channel.sent := by
  rw [← received_receive h]
  exact t.receive.channel.received_prefix

/-- A reader is blocked for good only on a stream that it has read to the end. -/
theorem progress (t : Segmented α) :
    t.head.isSome = true ∨ (∃ k, (t.deliver k).isSome = true) ∨ t.channel.queue = [] := by
  have hle := t.arrived_le
  rcases Nat.eq_zero_or_pos t.arrived with hz | hpos
  · cases hq : t.channel.queue with
    | nil => exact .inr (.inr rfl)
    | cons a rest =>
      refine .inr (.inl ⟨1, ?_⟩)
      have hroom : 0 < 1 ∧ t.arrived + 1 ≤ t.channel.queue.length := by simp [hz, hq]
      simp [deliver, hroom]
  · left
    have hne : t.arrived ≠ 0 := Nat.ne_of_gt hpos
    cases hq : t.channel.queue with
    | nil => simp [hq, hne] at hle
    | cons a rest => simp [head, hne, hq]

/-! ## What is left to do -/

/-- Every queued item has to be taken and, before that, has to arrive. -/
def load (t : Segmented α) : ℕ := 2 * t.channel.queue.length - t.arrived

theorem load_send (t : Segmented α) (xs : List α) :
    (t.send xs).load = t.load + 2 * xs.length := by
  have h := t.arrived_le
  simp only [load, send, Channel.send_queue, List.length_append]
  omega

theorem load_deliver {t t' : Segmented α} {k : ℕ} (h : t.deliver k = some t') :
    t'.load + 1 ≤ t.load := by
  obtain ⟨hk, hc, ha⟩ := deliver_cases h
  have hle := t'.arrived_le
  simp only [hc] at hle
  simp only [load, hc, ha]
  omega

theorem load_receive {t : Segmented α} {a : α} (h : t.head = some a) :
    t.receive.load + 1 ≤ t.load := by
  obtain ⟨hpos, rest, hq⟩ := queue_of_head h
  have hle := t.arrived_le
  simp only [hq, List.length_cons] at hle
  simp only [load, receive, Channel.receive_queue, hq, List.drop_one, List.tail_cons,
    List.length_cons]
  omega

end Segmented

end LinuxTemplates.SegmentedStreams
