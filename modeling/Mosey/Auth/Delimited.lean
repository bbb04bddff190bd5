import Mosey.Auth.Wrap
import Mosey.Library.Varint

/-!
# The server on a stream of bytes

The handshakes read and write messages with their length in front, and `Serve` adds the acknowledgement
when the handshake has returned an identity. On the server everything is read in sequence: what it has
written, and whether it is done, is a function of the bytes that have reached it.
-/

namespace Mosey.Auth

open Library

/-- The default limit of `protodelim`, 4 MiB. -/
def maxMessageSize : ℕ := 4194304

/-- A message on the wire behind its length. -/
def framed (body : Bytes) : Bytes := Varint.encode body.length ++ body

theorem length_framed_le {body : Bytes} (hsize : body.length ≤ maxMessageSize) :
    (framed body).length ≤ body.length + 4 := by
  have hheader : (Varint.encode body.length).length ≤ 4 :=
    Varint.length_encode_le (hsize.trans_lt (by decide))
  rw [framed, List.length_append]
  omega

/-- What can be read of the bytes that have arrived. -/
inductive Delimited (Message : Type)
  | incomplete
  | invalid (err : String)
  | complete (message : Message) (rest : Bytes)
  deriving DecidableEq

/-- What the handshakes call of the protobuf library. A message that has an encoding is written as one of its
encodings, behind the length of it, and any of its encodings is read as that message. Bytes that arrive later
do not change what was read. -/
structure Protodelim (Message : Type) (Encodes : Message → Bytes → Prop) where
  marshal : Message → Bytes
  marshalTo : Message → Bytes
  unmarshalFrom : Bytes → Delimited Message
  encodes_marshal {message : Message} {body : Bytes} :
    Encodes message body → Encodes message (marshal message)
  marshalTo_eq (message : Message) : marshalTo message = framed (marshal message)
  unmarshalFrom_nil : unmarshalFrom [] = .incomplete
  unmarshalFrom_framed {message : Message} {body : Bytes} : Encodes message body →
    body.length ≤ maxMessageSize → ∀ rest, unmarshalFrom (framed body ++ rest) = .complete message rest
  length_lt_of_complete {input rest : Bytes} {message : Message} :
    unmarshalFrom input = .complete message rest → rest.length < input.length
  complete_append {input rest : Bytes} {message : Message} : unmarshalFrom input = .complete message rest →
    ∀ more, unmarshalFrom (input ++ more) = .complete message (rest ++ more)
  invalid_append {input : Bytes} {err : String} : unmarshalFrom input = .invalid err →
    ∀ more, unmarshalFrom (input ++ more) = .invalid err

/-- The segments of a handshake between messages, with what the environment answers filled in. -/
structure Listener (Run Message : Type) where
  receive : Run → Except String Message → Run × List Message
  outcome : Run → Option (Except AuthError Identity)

inductive ServeStatus
  | waiting
  /-- The identity is stored, and the stream is closed behind the acknowledgement. -/
  | accepted (identity : Identity)
  | refused (err : AuthError)
  deriving DecidableEq

/-- What the server has written, and whether it is done. -/
structure Answer where
  written : Bytes
  status : ServeStatus
  deriving DecidableEq

def Answer.behind (earlier : Bytes) (answer : Answer) : Answer :=
  { answer with written := earlier ++ answer.written }

/-- The end of the handler of `Serve`. -/
def Answer.final : Except AuthError Identity → Answer
  | .ok identity => ⟨[ackOK], .accepted identity⟩
  | .error err => ⟨[], .refused err⟩

def Answer.waiting : Answer := ⟨[], .waiting⟩

namespace Listener

variable {Run Message : Type} {Encodes : Message → Bytes → Prop} (listener : Listener Run Message)
  (codec : Protodelim Message Encodes)

/-- The handler of `Serve` on the bytes that have reached it. Nothing is read behind what is refused. -/
def serveWithin : ℕ → Run → Bytes → Answer
  | 0, run, _ => ((listener.outcome run).map Answer.final).getD .waiting
  | fuel + 1, run, input =>
    match listener.outcome run with
    | some outcome => .final outcome
    | none =>
      match codec.unmarshalFrom input with
      | .incomplete => .waiting
      | .invalid err =>
        let (next, messages) := listener.receive run (.error err)
        (((listener.outcome next).map Answer.final).getD .waiting).behind (messages.flatMap codec.marshalTo)
      | .complete message rest =>
        let (next, messages) := listener.receive run (.ok message)
        (serveWithin fuel next rest).behind (messages.flatMap codec.marshalTo)

/-- Every message takes at least one byte. -/
def serve (run : Run) (input : Bytes) : Answer := listener.serveWithin codec (input.length + 1) run input

variable {listener codec} {run : Run} {input : Bytes}

/-- More fuel than bytes changes nothing, since each message shortens the input. -/
theorem serveWithin_eq {fuel fuel' : ℕ} (hfuel : input.length < fuel) (hfuel' : input.length < fuel') :
    listener.serveWithin codec fuel run input = listener.serveWithin codec fuel' run input := by
  induction fuel generalizing fuel' run input with
  | zero => exact absurd hfuel (Nat.not_lt_zero _)
  | succ fuel ih =>
    obtain ⟨fuel', rfl⟩ : ∃ others, fuel' = others + 1 := ⟨fuel' - 1, by omega⟩
    rw [serveWithin, serveWithin]
    cases listener.outcome run with
    | some outcome => rfl
    | none =>
      cases hread : codec.unmarshalFrom input with
      | incomplete | invalid => rfl
      | complete message rest =>
        have hshorter := codec.length_lt_of_complete hread
        dsimp only
        rw [ih (by omega) (by omega : rest.length < fuel')]

theorem serve_of_outcome (codec : Protodelim Message Encodes) {outcome : Except AuthError Identity}
    (houtcome : listener.outcome run = some outcome) (input : Bytes) :
    listener.serve codec run input = .final outcome := by
  rw [serve, serveWithin, houtcome]

theorem serve_incomplete (houtcome : listener.outcome run = none)
    (hread : codec.unmarshalFrom input = .incomplete) : listener.serve codec run input = .waiting := by
  rw [serve, serveWithin, houtcome, hread]

theorem serve_invalid {err : String} (houtcome : listener.outcome run = none)
    (hread : codec.unmarshalFrom input = .invalid err) :
    listener.serve codec run input =
      (((listener.outcome (listener.receive run (.error err)).1).map Answer.final).getD .waiting).behind
        ((listener.receive run (.error err)).2.flatMap codec.marshalTo) := by
  rw [serve, serveWithin, houtcome, hread]

/-- A message that can be read is given to the listener, and the rest is served after it. -/
theorem serve_complete {message : Message} {rest : Bytes} (houtcome : listener.outcome run = none)
    (hread : codec.unmarshalFrom input = .complete message rest) :
    listener.serve codec run input =
      (listener.serve codec (listener.receive run (.ok message)).1 rest).behind
        ((listener.receive run (.ok message)).2.flatMap codec.marshalTo) := by
  have hshorter := codec.length_lt_of_complete hread
  rw [serve, serveWithin, houtcome, hread]
  dsimp only
  rw [serve, serveWithin_eq hshorter (Nat.lt_succ_self _)]

/-- A message that arrives is answered, and what is behind it is read next. -/
theorem serve_framed {body : Bytes} {message : Message} (houtcome : listener.outcome run = none)
    (hencodes : Encodes message body) (hsize : body.length ≤ maxMessageSize) (rest : Bytes) :
    listener.serve codec run (framed body ++ rest) =
      (listener.serve codec (listener.receive run (.ok message)).1 rest).behind
        ((listener.receive run (.ok message)).2.flatMap codec.marshalTo) :=
  serve_complete houtcome (codec.unmarshalFrom_framed hencodes hsize rest)

theorem serve_nil (codec : Protodelim Message Encodes) (houtcome : listener.outcome run = none) :
    listener.serve codec run [] = .waiting :=
  serve_incomplete houtcome codec.unmarshalFrom_nil

/-- What was written stays written when more arrives. -/
theorem written_append (run : Run) (input more : Bytes) :
    (listener.serve codec run input).written <+: (listener.serve codec run (input ++ more)).written := by
  induction hlength : input.length using Nat.strong_induction_on generalizing run input with
  | _ length ih =>
    cases houtcome : listener.outcome run with
    | some outcome =>
      have hsame := (serve_of_outcome codec houtcome input).trans
        (serve_of_outcome codec houtcome (input ++ more)).symm
      exact hsame ▸ List.prefix_rfl
    | none =>
      cases hread : codec.unmarshalFrom input with
      | incomplete =>
        rw [serve_incomplete houtcome hread]
        exact List.nil_prefix
      | invalid err =>
        have hsame := (serve_invalid houtcome hread).trans
          (serve_invalid houtcome (codec.invalid_append hread more)).symm
        exact hsame ▸ List.prefix_rfl
      | complete message rest =>
        have hshorter := codec.length_lt_of_complete hread
        rw [serve_complete houtcome hread, serve_complete houtcome (codec.complete_append hread more)]
        exact (List.prefix_append_right_inj _).mpr (ih rest.length (hlength ▸ hshorter) _ rest rfl)

/-- Nothing is read any more when the handler has returned. -/
theorem serve_append (more : Bytes) (hdone : (listener.serve codec run input).status ≠ .waiting) :
    listener.serve codec run (input ++ more) = listener.serve codec run input := by
  induction hlength : input.length using Nat.strong_induction_on generalizing run input with
  | _ length ih =>
    cases houtcome : listener.outcome run with
    | some outcome => rw [serve_of_outcome codec houtcome, serve_of_outcome codec houtcome]
    | none =>
      cases hread : codec.unmarshalFrom input with
      | incomplete =>
        rw [serve_incomplete houtcome hread] at hdone
        exact absurd rfl hdone
      | invalid err =>
        rw [serve_invalid houtcome hread, serve_invalid houtcome (codec.invalid_append hread more)]
      | complete message rest =>
        have hshorter := codec.length_lt_of_complete hread
        rw [serve_complete houtcome hread] at hdone
        rw [serve_complete houtcome hread, serve_complete houtcome (codec.complete_append hread more),
          ih rest.length (hlength ▸ hshorter) hdone rfl]

end Listener

end Mosey.Auth
