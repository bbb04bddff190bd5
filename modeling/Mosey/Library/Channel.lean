import Mathlib.Data.List.Basic

/-!
# Bounded channels

A channel is kept as everything that was ever sent on it and how much of that has been received, so
that statements about its history need no extra bookkeeping. A send that would exceed the capacity is
refused.
-/

namespace Mosey.Library

structure Channel (Message : Type*) (capacity : ℕ) where
  sent : List Message
  received : ℕ
  received_le : received ≤ sent.length
  bounded : sent.length ≤ received + capacity
  deriving DecidableEq

namespace Channel

variable {Message : Type*} {capacity : ℕ} (channel : Channel Message capacity)

def empty : Channel Message capacity := ⟨[], 0, Nat.zero_le _, Nat.zero_le _⟩

/-- What was sent and not yet received. -/
def queued : List Message := channel.sent.drop channel.received

/-- What was received so far. -/
def taken : List Message := channel.sent.take channel.received

def HasRoom : Prop := channel.sent.length < channel.received + capacity

instance : Decidable channel.HasRoom := inferInstanceAs (Decidable (_ < _))

/-- A send that does not wait: it is refused by a full channel. -/
def trySend (message : Message) : Option (Channel Message capacity) :=
  if hroom : channel.sent.length < channel.received + capacity then
    some
      { sent := channel.sent ++ [message]
        received := channel.received
        received_le := by
          rw [List.length_append]
          exact Nat.le_add_right_of_le channel.received_le
        bounded := by
          rw [List.length_append, List.length_singleton]
          exact hroom }
  else none

/-- The oldest queued message is taken, if there is one. -/
def receive : Channel Message capacity :=
  if hqueued : channel.received < channel.sent.length then
    { sent := channel.sent
      received := channel.received + 1
      received_le := hqueued
      bounded := by
        have := channel.bounded
        omega }
  else channel

variable {channel}

variable {after : Channel Message capacity} {message : Message}

/-- A send succeeds only with room, and then the message is the last one sent. -/
theorem trySend_eq_some (hsend : channel.trySend message = some after) :
    channel.HasRoom ∧ after.sent = channel.sent ++ [message] ∧ after.received = channel.received := by
  unfold trySend at hsend
  split at hsend
  · next hroom =>
    obtain rfl := Option.some.inj hsend
    exact ⟨hroom, rfl, rfl⟩
  · cases hsend

theorem trySend_eq_none : channel.trySend message = none ↔ ¬ channel.HasRoom := by
  unfold trySend HasRoom
  split <;> simp_all

@[simp] theorem sent_receive : channel.receive.sent = channel.sent := by
  unfold receive
  split <;> rfl

@[simp] theorem sent_empty : (empty : Channel Message capacity).sent = [] := rfl

/-- What was taken out and what is queued make up what was sent. -/
theorem taken_append_queued : channel.taken ++ channel.queued = channel.sent :=
  List.take_append_drop ..

theorem taken_trySend (hsend : channel.trySend message = some after) : after.taken = channel.taken := by
  obtain ⟨_, hsent, hreceived⟩ := trySend_eq_some hsend
  unfold taken
  rw [hsent, hreceived, List.take_append_of_le_length channel.received_le]

theorem taken_receive {rest : List Message} (hqueued : channel.queued = message :: rest) :
    channel.receive.taken = channel.taken ++ [message] := by
  have hlt : channel.received < channel.sent.length := by
    have hlength := congrArg List.length hqueued
    simp only [queued, List.length_drop, List.length_cons] at hlength
    omega
  have hmessage : channel.sent[channel.received] = message := by
    rw [queued, List.drop_eq_getElem_cons hlt] at hqueued
    exact (List.cons.inj hqueued).1
  rw [taken, receive, dif_pos hlt, List.take_succ_eq_append_getElem hlt, hmessage, taken]

theorem queued_trySend (hsend : channel.trySend message = some after) :
    after.queued = channel.queued ++ [message] := by
  obtain ⟨_, hsent, hreceived⟩ := trySend_eq_some hsend
  unfold queued
  rw [hsent, hreceived, List.drop_append_of_le_length channel.received_le]

/-- A channel without room has something queued. -/
theorem queued_ne_nil_of_full (hcapacity : 0 < capacity) (hfull : ¬ channel.HasRoom) :
    channel.queued ≠ [] := by
  unfold HasRoom at hfull
  unfold queued
  rw [ne_eq, List.drop_eq_nil_iff]
  omega

end Channel

end Mosey.Library
