import Mathlib.Data.List.Basic

/-!
# Framed streams

Messages are sent one behind the other, each in a frame that shows where it ends, and arrive cut into
pieces in other places. Where a reader stands depends only on the bytes that have arrived and on how many
messages were asked for.
-/

namespace Mosey.Library

/-- A frame for each message, and a reader of the first frame in a buffer of limited size. -/
structure Framing (Byte Message : Type*) where
  capacity : ℕ
  frame : Message → List Byte
  next : List Byte → Option (Message × List Byte)
  next_frame : ∀ {message : Message} {rest : List Byte}, (frame message ++ rest).length ≤ capacity →
    next (frame message ++ rest) = some (message, rest)
  next_cut : ∀ {message : Message} {buffer : List Byte}, buffer.length ≤ capacity →
    buffer <+: frame message → buffer.length < (frame message).length → next buffer = none

namespace Framing

variable {Byte Message : Type*} (framing : Framing Byte Message)

def wire (messages : List Message) : List Byte := messages.flatMap framing.frame

/-- What is left when some messages are read. -/
def unread (messages : List Message) (received : List Byte) (count : ℕ) : List Byte :=
  received.drop (framing.wire (messages.take count)).length

/-- Some calls have their messages, and the first that has none waits for the end of its frame. -/
structure Standing (messages : List Message) (received : List Byte) (calls count : ℕ) : Prop where
  le_calls : count ≤ calls
  le_length : count ≤ messages.length
  arrived : (framing.wire (messages.take count)).length ≤ received.length
  waits : count < calls → count < messages.length ∧
    received.length < (framing.wire (messages.take (count + 1))).length

variable {framing} {messages : List Message} {raw received : List Byte} {count : ℕ}

/-- Messages in sequence are sent in sequence. -/
theorem wire_append (first second : List Message) :
    framing.wire (first ++ second) = framing.wire first ++ framing.wire second :=
  List.flatMap_append

theorem wire_take_succ (hcount : count < messages.length) :
    framing.wire (messages.take (count + 1)) =
      framing.wire (messages.take count) ++ framing.frame (messages[count]) := by
  rw [List.take_succ_eq_append_getElem hcount, wire_append, wire, wire, List.flatMap_singleton]

theorem length_wire_take_mono {first second : ℕ} (hle : first ≤ second) :
    (framing.wire (messages.take first)).length ≤ (framing.wire (messages.take second)).length := by
  obtain ⟨others, hothers⟩ := List.take_prefix_take_left (l := messages) hle
  rw [← hothers, wire_append, List.length_append]
  exact Nat.le_add_right _ _

/-- Frames that have arrived are what was received first. -/
theorem wire_take_append_unread (hbegins : received <+: framing.wire messages ++ raw)
    (hle : (framing.wire (messages.take count)).length ≤ received.length) :
    framing.wire (messages.take count) ++ framing.unread messages received count = received := by
  have hwire : framing.wire (messages.take count) <+: framing.wire messages ++ raw := by
    rw [← List.take_append_drop count messages, wire_append, List.take_append_drop, List.append_assoc]
    exact List.prefix_append _ _
  obtain ⟨rest, hrest⟩ := List.prefix_of_prefix_length_le hwire hbegins hle
  rw [unread, ← hrest, List.drop_left]

theorem unread_append (hle : (framing.wire (messages.take count)).length ≤ received.length)
    (chunk : List Byte) :
    framing.unread messages (received ++ chunk) count = framing.unread messages received count ++ chunk :=
  List.drop_append_of_le_length hle

theorem length_unread_succ_le :
    (framing.unread messages received (count + 1)).length ≤
      (framing.unread messages received count).length := by
  rw [unread, unread, List.length_drop, List.length_drop]
  exact Nat.sub_le_sub_left (length_wire_take_mono (Nat.le_succ count)) _

/-- A frame that has arrived is read. -/
theorem next_unread_of_le (hcount : count < messages.length)
    (hbegins : received <+: framing.wire messages ++ raw)
    (harrived : (framing.wire (messages.take (count + 1))).length ≤ received.length)
    (hcapacity : (framing.unread messages received count).length ≤ framing.capacity) :
    framing.next (framing.unread messages received count) =
      some (messages[count], framing.unread messages received (count + 1)) := by
  have hbefore := wire_take_append_unread hbegins
    (Nat.le_trans (length_wire_take_mono (Nat.le_succ count)) harrived)
  have hafter := wire_take_append_unread hbegins harrived
  rw [wire_take_succ hcount, List.append_assoc] at hafter
  have hunread := List.append_cancel_left (hafter.trans hbefore.symm)
  rw [← hunread] at hcapacity ⊢
  exact framing.next_frame hcapacity

/-- A frame of which a part has arrived is waited for. -/
theorem next_unread_of_lt (hcount : count < messages.length)
    (hbegins : received <+: framing.wire messages ++ raw)
    (hbefore : (framing.wire (messages.take count)).length ≤ received.length)
    (hcut : received.length < (framing.wire (messages.take (count + 1))).length)
    (hcapacity : (framing.unread messages received count).length ≤ framing.capacity) :
    framing.next (framing.unread messages received count) = none := by
  have hsplit := wire_take_append_unread hbegins hbefore
  have hlength := congrArg List.length hsplit
  rw [List.length_append] at hlength
  rw [wire_take_succ hcount, List.length_append] at hcut
  have hframe : framing.unread messages received count <+: framing.frame (messages[count]) := by
    have hwhole : framing.wire messages ++ raw = framing.wire (messages.take count) ++
        (framing.frame (messages[count]) ++ (framing.wire (messages.drop (count + 1)) ++ raw)) := by
      rw [← List.append_assoc, ← wire_take_succ hcount, ← List.append_assoc, ← wire_append,
        List.take_append_drop]
    rw [hwhole, ← hsplit, List.prefix_append_right_inj] at hbegins
    exact List.prefix_of_prefix_length_le hbegins (List.prefix_append _ _) (by omega)
  exact framing.next_cut hcapacity hframe (by omega)

end Framing

end Mosey.Library
