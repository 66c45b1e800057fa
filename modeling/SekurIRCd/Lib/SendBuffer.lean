/-
# A bounded send buffer

Items are appended to a buffer of `cap` symbols and dropped if they do not fit; writes take any
number of symbols from its front.  What has been written and what is held form one stream:
writing does not change it, and an item either extends it or leaves it as it was.

So a sweep of items arrives whole exactly when all of it fits at once (`queueAll_iff`), whatever
is queued and written afterwards (`stream_run`).
-/
import Mathlib.Data.List.Flatten

namespace SendBuffer

variable {β : Type*}

/-- What is held, and what has been written. The second is there to speak of the whole stream. -/
structure Buffer (β : Type*) where
  held : List β
  sent : List β

def Buffer.empty : Buffer β := ⟨[], []⟩

namespace Buffer

/-- All that was accepted so far, in order. -/
def stream (b : Buffer β) : List β := b.sent ++ b.held

/-- One item, dropped if it would fill the buffer. A smaller item that comes later may still be
taken, so what arrives need not be a prefix of what was sent. -/
def queue (cap : Nat) (b : Buffer β) (item : List β) : Buffer β :=
  if b.held.length + item.length < cap then ⟨b.held ++ item, b.sent⟩ else b

/-- A write takes `n` symbols. -/
def write (n : Nat) (b : Buffer β) : Buffer β := ⟨b.held.drop n, b.sent ++ b.held.take n⟩

def queueAll (cap : Nat) (b : Buffer β) (items : List (List β)) : Buffer β :=
  items.foldl (queue cap) b

/-- What can happen to a buffer. -/
inductive Step (β : Type*)
  | queue (item : List β)
  | write (n : Nat)

def step (cap : Nat) (b : Buffer β) : Step β → Buffer β
  | .queue item => b.queue cap item
  | .write n => b.write n

variable {cap : Nat} {b : Buffer β}

@[simp] theorem stream_write (n : Nat) (b : Buffer β) : (b.write n).stream = b.stream := by
  simp [stream, write]

theorem stream_step (b : Buffer β) (s : Step β) : b.stream <+: (b.step cap s).stream := by
  cases s with
  | queue item =>
    simp only [step, queue]
    split
    · exact ⟨item, by simp [stream]⟩
    · exact List.prefix_rfl
  | write n => exact ⟨[], by rw [List.append_nil, step, stream_write]⟩

theorem stream_run : ∀ (ss : List (Step β)) (b : Buffer β),
    b.stream <+: (ss.foldl (step cap) b).stream
  | [], _ => List.prefix_rfl
  | s :: ss, b => (stream_step b s).trans (stream_run ss (b.step cap s))

@[simp] theorem sent_queue (item : List β) : (b.queue cap item).sent = b.sent := by
  unfold queue
  split <;> rfl

@[simp] theorem sent_queueAll (items : List (List β)) : (b.queueAll cap items).sent = b.sent := by
  induction items generalizing b with
  | nil => rfl
  | cons item items ih => exact ih.trans (sent_queue item)

theorem held_queue_lt (h : b.held.length < cap) (item : List β) :
    (b.queue cap item).held.length < cap := by
  unfold queue
  split
  · simpa using by assumption
  · exact h

theorem held_queueAll_lt (h : b.held.length < cap) (items : List (List β)) :
    (b.queueAll cap items).held.length < cap := by
  induction items generalizing b with
  | nil => exact h
  | cons item items ih => exact ih (held_queue_lt h item)

theorem held_queueAll_of_fits : ∀ {items : List (List β)} {b : Buffer β},
    b.held.length + items.flatten.length < cap →
    (b.queueAll cap items).held = b.held ++ items.flatten
  | [], b, _ => by simp [queueAll]
  | item :: items, b, h => by
    rw [List.flatten_cons, List.length_append] at h
    have hitem : b.held.length + item.length < cap := by omega
    have hq : b.queue cap item = ⟨b.held ++ item, b.sent⟩ := if_pos hitem
    have hrest : (b.queue cap item).held.length + items.flatten.length < cap := by
      rw [hq]
      simp only [List.length_append]
      omega
    have ih := held_queueAll_of_fits hrest
    rw [queueAll, List.foldl_cons]
    refine ih.trans ?_
    rw [hq, List.flatten_cons, List.append_assoc]

/-- **Everything is accepted exactly when all of it fits.** A sweep queues its items without a
write between them, so only the room at its start matters. -/
theorem queueAll_iff (h : b.held.length < cap) (items : List (List β)) :
    b.held ++ items.flatten <+: (b.queueAll cap items).held ↔
      b.held.length + items.flatten.length < cap := by
  constructor
  · intro hp
    have hle := hp.length_le
    rw [List.length_append] at hle
    exact Nat.lt_of_le_of_lt hle (held_queueAll_lt h items)
  · intro hfit
    exact ⟨[], by rw [List.append_nil, held_queueAll_of_fits hfit]⟩

end Buffer

end SendBuffer
