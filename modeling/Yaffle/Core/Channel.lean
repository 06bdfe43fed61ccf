import Mathlib.Init

/-! A bounded channel with one sender. A `send` waits until there is room, and gives its
message back once the receiver is gone; a sender whose task is over is dropped. -/
namespace Yaffle

inductive Sender (α : Type) where
  | idle
  | waiting (message : α)
  | refused (message : α)
  | dropped

namespace Sender

/-- The message that the channel has not taken. -/
def toList : Sender α → List α
  | .idle | .dropped => []
  | .waiting message | .refused message => [message]

/-- No message will come from this sender. -/
def Gone : Sender α → Prop
  | .refused _ | .dropped => True
  | .idle | .waiting _ => False

end Sender

structure Channel (α : Type) where
  /-- Accepted and not received yet, oldest first. -/
  queue : List α
  sender : Sender α

namespace Channel

def empty : Channel α := ⟨[], .idle⟩

/-- The messages that were sent and not received. -/
def pending (channel : Channel α) : List α := channel.queue ++ channel.sender.toList

/-- The sender calls `send`, if it has a message. -/
def offer (channel : Channel α) : Option α → Channel α
  | some message => { channel with sender := .waiting message }
  | none => channel

/-- The message that waits is accepted. -/
def accept (capacity : Nat) (channel : Channel α) : Option (Channel α) :=
  match channel.sender with
  | .waiting message =>
    if channel.queue.length < capacity then some ⟨channel.queue ++ [message], .idle⟩ else none
  | _ => none

def recv (channel : Channel α) : Option (α × Channel α) :=
  match channel.queue with
  | message :: queue => some (message, { channel with queue := queue })
  | [] => none

/-- The message that waits is given back, since the receiver is gone. -/
def refuse (channel : Channel α) : Option (Channel α) :=
  match channel.sender with
  | .waiting message => some { channel with sender := .refused message }
  | _ => none

/-- No message comes any more: the sender is gone and the queue is empty. -/
def Exhausted (channel : Channel α) : Prop := channel.queue = [] ∧ channel.sender.Gone

/-- The task of the sender is over without a message. -/
def drop (channel : Channel α) : Channel α := { channel with sender := .dropped }

@[simp] theorem offer_none (channel : Channel α) : channel.offer none = channel := rfl

@[simp] theorem queue_offer (channel : Channel α) (message : Option α) :
    (channel.offer message).queue = channel.queue := by
  cases message <;> rfl

theorem accept_some {capacity : Nat} {channel next : Channel α} :
    channel.accept capacity = some next ↔ ∃ message, channel.sender = .waiting message ∧
      channel.queue.length < capacity ∧ next = ⟨channel.queue ++ [message], .idle⟩ := by
  unfold accept
  cases channel.sender with
  | waiting message =>
    by_cases room : channel.queue.length < capacity
    · simp [room, eq_comm]
    · simp [room]
  | idle | refused | dropped => simp

theorem recv_some {channel next : Channel α} {message : α} :
    channel.recv = some (message, next) ↔
      channel.queue = message :: next.queue ∧ next.sender = channel.sender := by
  obtain ⟨queue, sender⟩ := channel
  obtain ⟨nextQueue, nextSender⟩ := next
  cases queue with
  | nil => simp [recv]
  | cons first rest => simp [recv, and_assoc, eq_comm]

theorem refuse_some {channel next : Channel α} :
    channel.refuse = some next ↔ ∃ message, channel.sender = .waiting message ∧
      next = { channel with sender := .refused message } := by
  unfold refuse
  cases channel.sender with
  | waiting message => simp [eq_comm]
  | idle | refused | dropped => simp

theorem pending_offer {channel : Channel α} (idle : channel.sender = .idle) (message : Option α) :
    (channel.offer message).pending = channel.pending ++ message.toList := by
  cases message <;> simp [offer, pending, Sender.toList, idle]

theorem pending_drop {channel : Channel α} (idle : channel.sender = .idle) :
    channel.drop.pending = channel.pending := by
  simp [drop, pending, Sender.toList, idle]

theorem pending_accept {capacity : Nat} {channel next : Channel α}
    (accepted : channel.accept capacity = some next) : next.pending = channel.pending := by
  obtain ⟨message, waiting, _, rfl⟩ := accept_some.mp accepted
  simp [pending, Sender.toList, waiting]

theorem pending_recv {channel next : Channel α} {message : α}
    (received : channel.recv = some (message, next)) :
    channel.pending = message :: next.pending := by
  obtain ⟨queued, same⟩ := recv_some.mp received
  rw [pending, queued, ← same]
  rfl

theorem pending_refuse {channel next : Channel α} (refused : channel.refuse = some next) :
    next.pending = channel.pending := by
  obtain ⟨message, waiting, rfl⟩ := refuse_some.mp refused
  simp [pending, Sender.toList, waiting]

end Channel
end Yaffle
