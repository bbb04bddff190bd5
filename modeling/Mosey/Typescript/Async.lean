import Mosey.Typescript.Chunking

/-!
# Async functions on a stream

A handshake of the client is an async function on one `Stream`. It runs to its next `await` without a
break, and between two awaits frames arrive, the socket fails or closes, and promises of WebCrypto are
settled, in any order. Such a function is written here as a tree that branches where it waits.

What the function does depends on the bytes that have arrived and on the number of tasks that have ended,
and not on their order or on how the bytes were cut: it is a function that reads from its input in
sequence and blocks. When the stream closes, a function that waits for a frame is told so, and one that
waits for the acknowledgement only if it asked for it.
-/

namespace Mosey.Typescript

open Library

inductive ClientError
  | stream (err : StreamError)
  | range (err : RangeError)
  | decode (err : DecodeError)
  | auth (err : AuthError)
  | error (text : String)
  deriving DecidableEq

/-- The `readOneByte` of a handshake. One of the three looks for the end of the stream too. -/
structure AckReader where
  name : String
  watchesClose : Bool
  deriving DecidableEq

inductive Async (Result : Type)
  | throws (err : ClientError)
  /-- A promise of WebCrypto: the rest runs in a later task. -/
  | later (next : Async Result)
  | sendFramed (body : Bytes) (next : Async Result)
  | readFramed (next : Bytes → Async Result)
  /-- The end of every handshake: read the acknowledgement, close the stream and return. -/
  | readAck (reader : AckReader) (result : Result)

variable {Result : Type}

/-- The rest of a function behind something that can throw. -/
def Async.attempt {Value : Type} (value : Except ClientError Value) (next : Value → Async Result) :
    Async Result :=
  match value with
  | .error err => .throws err
  | .ok value => next value

/-- Where the function stands. A read is the number of its promise, and so is the promise of
`whenClosed`. -/
inductive Awaiting (Result : Type)
  | task (next : Async Result)
  | frame (read : ℕ) (next : Bytes → Async Result)
  | ack (reader : AckReader) (closing : ℕ) (result : Result)
  | settled (outcome : Except ClientError Result)

structure Running (Result : Type) where
  stream : Stream
  awaiting : Awaiting Result

def AckOK : UInt8 := 0x01

namespace AckReader

variable (reader : AckReader)

def closedBeforeAck : ClientError :=
  .error ("mosey/auth(" ++ reader.name ++ "): server closed before ack")

def unexpectedAck (ack : UInt8) : ClientError :=
  .error ("mosey/auth(" ++ reader.name ++ "): server sent unexpected ack 0x" ++
    String.ofList (Nat.toDigits 16 ack.toNat))

/-- What the handler of `readOneByte` and the lines behind it make of the first data. -/
def receive (stream : Stream) (result : Result) : Bytes → Running Result
  | [] => ⟨stream, .settled (.error reader.closedBeforeAck)⟩
  | ack :: _ =>
    if ack = AckOK then ⟨stream.close, .settled (.ok result)⟩
    else ⟨stream, .settled (.error (reader.unexpectedAck ack))⟩

end AckReader

/-- The function goes on if what it waits for is there. Of the handler and the end of the stream, the first
one decides. -/
def Running.awaitAck (stream : Stream) (reader : AckReader) (closing : ℕ) (result : Result) :
    Running Result :=
  match stream.delivered.head? with
  | some (_, chunk) => reader.receive stream result chunk
  | none =>
    match reader.watchesClose, stream.closings[closing]? with
    | true, some (.resolved err) => ⟨stream, .settled (.error (.stream err))⟩
    | _, _ => ⟨stream, .ack reader closing result⟩

/-- The number of the handler that `readOneByte` installs, which is the only one. -/
def ackHandler : ℕ := 0

/-- The calls of `readOneByte`. -/
def AckReader.install (reader : AckReader) (stream : Stream) : Stream :=
  let stream := stream.onData ackHandler
  if reader.watchesClose then stream.whenClosed else stream

/-- The function up to its next `await`. -/
def Async.proceed (engine : Engine) (stream : Stream) : Async Result → Running Result
  | throws err => ⟨stream, .settled (.error err)⟩
  | later next => ⟨stream, .task next⟩
  | sendFramed body next =>
    let after := stream.sendFramed engine body
    match after.thrown[stream.thrown.length]? with
    | some err => ⟨after, .settled (.error (.stream err))⟩
    | none => next.proceed engine after
  | readFramed next =>
    let after := stream.readFramed
    match after.reads[stream.reads.length]? with
    | some (.resolved body) => (next body).proceed engine after
    | some (.rejected err) => ⟨after, .settled (.error (.stream err))⟩
    | _ => ⟨after, .frame stream.reads.length next⟩
  | readAck reader result =>
    Running.awaitAck (reader.install stream) reader stream.closings.length result

/-- The function when something has happened to its stream. -/
def Running.resume (engine : Engine) (stream : Stream) : Awaiting Result → Running Result
  | .frame read next =>
    match stream.reads[read]? with
    | some (.resolved body) => (next body).proceed engine stream
    | some (.rejected err) => ⟨stream, .settled (.error (.stream err))⟩
    | _ => ⟨stream, .frame read next⟩
  | .ack reader closing result => Running.awaitAck stream reader closing result
  | awaiting => ⟨stream, awaiting⟩

inductive ClientEvent
  | message (data : MessageData)
  | error
  | closed (code : ℕ) (reason : String)
  /-- The promise of WebCrypto that is waited for is settled. -/
  | task
  deriving DecidableEq

abbrev ClientEvent.binary (chunk : Bytes) : ClientEvent := message (.arrayBuffer chunk)

def Awaiting.isTask : Awaiting Result → Bool
  | task _ => true
  | _ => false

def Awaiting.isSettled : Awaiting Result → Bool
  | settled _ => true
  | _ => false

namespace Running

def step (engine : Engine) (running : Running Result) : ClientEvent → Running Result
  | .message data => resume engine (running.stream.onMessage engine data) running.awaiting
  | .error => resume engine (running.stream.fail .websocketError) running.awaiting
  | .closed code reason => resume engine (running.stream.onclose code reason) running.awaiting
  | .task =>
    match running.awaiting with
    | .task next => next.proceed engine running.stream
    | _ => running

def allowed (engine : Engine) (running : Running Result) : ClientEvent → Prop
  | .message (.arrayBuffer chunk) => chunk.length ≤ engine.maxLength
  | .task => running.awaiting.isTask = true
  | _ => True

end Running

def asyncMachine (engine : Engine) (program : Async Result) : Machine (Running Result) ClientEvent where
  init := program.proceed engine newStream
  allowed := Running.allowed engine
  step := Running.step engine

instance (engine : Engine) (program : Async Result) (running : Running Result) (event : ClientEvent) :
    Decidable ((asyncMachine engine program).allowed running event) := by
  rcases event with ⟨_ | _⟩ | _ | _ | _ <;> dsimp only [asyncMachine, Running.allowed] <;> infer_instance

/-- What the function waits for, without the numbers of promises. -/
inductive Rest (Result : Type)
  | task (next : Async Result)
  | frame (next : Bytes → Async Result)
  | ack (reader : AckReader) (result : Result)
  | settled (outcome : Except ClientError Result)

def Awaiting.rest : Awaiting Result → Rest Result
  | task next => .task next
  | frame _ next => .frame next
  | ack reader _ result => .ack reader result
  | settled outcome => .settled outcome

/-- What was sent, where the function stands, and what it has not read. -/
structure Position (Result : Type) where
  sent : List Outgoing
  rest : Rest Result
  unread : Bytes

def Position.behind (earlier : List Outgoing) (position : Position Result) : Position Result :=
  { position with sent := earlier ++ position.sent }

def Position.settled (sent : List Outgoing) (outcome : Except ClientError Result) : Position Result :=
  ⟨sent, .settled outcome, []⟩

/-- The function as one that reads from its input and blocks at its end, after a number of tasks. -/
def Async.sequential (engine : Engine) : Async Result → ℕ → Bytes → Position Result
  | throws err, _, _ => .settled [] (.error err)
  | later next, 0, input => ⟨[], .task next, input⟩
  | later next, tasks + 1, input => next.sequential engine tasks input
  | sendFramed body next, tasks, input =>
    match withProtodelim engine body with
    | .error err => .settled [] (.error (.stream (.range err)))
    | .ok frame => (next.sequential engine tasks input).behind [.frame frame]
  | readFramed next, tasks, input =>
    match (protodelim engine).next input with
    | some (body, rest) => (next body).sequential engine tasks rest
    | none => ⟨[], .frame next, input⟩
  | readAck reader result, _, input =>
    match input with
    | [] => ⟨[], .ack reader result, []⟩
    | ack :: _ =>
      if ack = AckOK then .settled [.close 1000] (.ok result)
      else .settled [] (.error (reader.unexpectedAck ack))

/-- The stream while the function does not read. -/
structure Stream.Idle (stream : Stream) : Prop where
  opened : stream.closed = false
  framed : stream.dataMode = false
  none_waits : stream.pendingResolvers = []
  none_delivered : stream.delivered = []

/-- The stream while the last read waits. -/
structure Stream.Reading (stream : Stream) (read : ℕ) : Prop where
  opened : stream.closed = false
  framed : stream.dataMode = false
  waits : stream.pendingResolvers = [read]
  none_delivered : stream.delivered = []
  pending : stream.reads[read]? = some .pending
  cut : readProtodelim stream.buffer = .ok none

/-- The stream while the acknowledgement is waited for. -/
structure Stream.Acking (stream : Stream) : Prop where
  opened : stream.closed = false
  nothing_unread : stream.buffer = []
  raw : stream.dataMode = true
  handled : stream.dataHandler = some ackHandler
  none_delivered : stream.delivered = []

/-- A call of `whenClosed` waits. -/
structure Stream.Watched (stream : Stream) (closing : ℕ) : Prop where
  waits : closing ∈ stream.closeWaiters
  pending : stream.closings[closing]? = some .pending

/-- What is left to do: the function goes on as this one does, with what is buffered as its first input. -/
inductive Stands (engine : Engine) :
    Running Result → (ℕ → Bytes → Position Result) → Prop
  | task {stream : Stream} {next : Async Result} {future : ℕ → Bytes → Position Result}
      (hidle : stream.Idle)
      (hfuture : ∀ tasks input, future tasks input =
        ((Async.later next).sequential engine tasks (stream.buffer ++ input)).behind stream.sent) :
      Stands engine ⟨stream, .task next⟩ future
  | frame {stream : Stream} {read : ℕ} {next : Bytes → Async Result}
      {future : ℕ → Bytes → Position Result} (hreading : stream.Reading read)
      (hfuture : ∀ tasks input, future tasks input =
        ((Async.readFramed next).sequential engine tasks (stream.buffer ++ input)).behind stream.sent) :
      Stands engine ⟨stream, .frame read next⟩ future
  | ack {stream : Stream} {reader : AckReader} {closing : ℕ} {result : Result}
      {future : ℕ → Bytes → Position Result} (hacking : stream.Acking)
      (hclosing : reader.watchesClose = true → stream.Watched closing)
      (hfuture : ∀ tasks input, future tasks input =
        ((Async.readAck reader result).sequential engine tasks input).behind stream.sent) :
      Stands engine ⟨stream, .ack reader closing result⟩ future
  | settled {stream : Stream} {outcome : Except ClientError Result}
      {future : ℕ → Bytes → Position Result}
      (hfuture : ∀ tasks input, future tasks input = .settled stream.sent outcome) :
      Stands engine ⟨stream, .settled outcome⟩ future

variable {engine : Engine} {running : Running Result} {future : ℕ → Bytes → Position Result}

theorem Stands.congr {other : ℕ → Bytes → Position Result} (hstands : Stands engine running future)
    (hsame : ∀ tasks input, future tasks input = other tasks input) : Stands engine running other := by
  have hfuture : future = other := by
    funext tasks input
    exact hsame tasks input
  rwa [hfuture] at hstands

theorem Position.behind_behind (first second : List Outgoing) (position : Position Result) :
    (position.behind second).behind first = position.behind (first ++ second) := by
  rw [behind, behind, behind, List.append_assoc]

theorem next_of_readProtodelim_none (engine : Engine) {buffer : Bytes}
    (hnone : readProtodelim buffer = .ok none) :
    (protodelim engine).next buffer = none := by
  dsimp only [protodelim]
  rw [hnone]

/-- A message that is there stays there when more arrives. -/
theorem readProtodelim_append {buffer : Bytes} {ready : Framed}
    (hready : readProtodelim buffer = .ok (some ready)) (more : Bytes) :
    ready.n ≤ buffer.length ∧ readProtodelim (buffer ++ more) = .ok (some ready) := by
  rcases Varint.exists_terminated_or buffer with ⟨groups, others, hgroups, rfl⟩ | hcontinued
  · rw [readProtodelim_groups hgroups] at hready
    rw [List.append_assoc, readProtodelim_groups hgroups]
    split_ifs at hready with hten
    · dsimp only at hready
      split_ifs at hready with hcut
      · cases hready
      · obtain rfl := Option.some.inj (Except.ok.inj hready)
        generalize numberOf (groups.length + numberOf (Varint.value groups)) = total at hcut ⊢
        have hlong := Nat.le_of_not_lt hcut
        refine ⟨hlong, ?_⟩
        simp only [List.length_append] at hlong ⊢
        rw [if_pos hten, if_neg (by omega), List.take_append_of_le_length (by omega)]
    · cases hready
  · rw [readProtodelim_of_continued fun byte hmem ↦ hcontinued byte (List.mem_of_mem_take hmem)] at hready
    cases hready

/-- Bytes behind a message do not change how it is read. -/
theorem next_append {buffer body rest : Bytes} (hnext : (protodelim engine).next buffer = some (body, rest))
    (more : Bytes) : (protodelim engine).next (buffer ++ more) = some (body, rest ++ more) := by
  obtain ⟨ready, hready, rfl, rfl⟩ := exists_ready_of_next hnext
  obtain ⟨hlong, happended⟩ := readProtodelim_append hready more
  dsimp only [protodelim]
  rw [happended]
  dsimp only
  rw [List.drop_append_of_le_length hlong]

/-- Read in sequence, a message that has arrived is given to what comes next. -/
theorem sequential_readFramed {next : Bytes → Async Result} {buffer body rest : Bytes}
    (hnext : (protodelim engine).next buffer = some (body, rest)) (tasks : ℕ) (input : Bytes) :
    (Async.readFramed next).sequential engine tasks (buffer ++ input) =
      (next body).sequential engine tasks (rest ++ input) := by
  rw [Async.sequential, next_append hnext]

variable {stream : Stream}

theorem Stream.sendFramed_of_ok {body frame : Bytes} (hframe : withProtodelim engine body = .ok frame)
    (hopened : stream.closed = false) :
    stream.sendFramed engine body = { stream with sent := stream.sent ++ [.frame frame] } := by
  rw [Stream.sendFramed, hframe]
  dsimp only
  rw [Stream.send, hopened, if_neg Bool.false_ne_true]

/-- The byte of the acknowledgement settles the function, whatever follows it. -/
theorem receive_stands (hopened : stream.closed = false) (reader : AckReader) (result : Result)
    (ack : UInt8) (rest : Bytes) :
    Stands engine (reader.receive stream result (ack :: rest)) fun tasks input ↦
      ((Async.readAck reader result).sequential engine tasks (ack :: rest ++ input)).behind stream.sent := by
  rw [AckReader.receive]
  split_ifs with hack
  · apply Stands.settled
    intro tasks input
    simp [Async.sequential, Position.behind, Position.settled, Stream.close, hack, hopened]
  · apply Stands.settled
    intro tasks input
    simp [Async.sequential, Position.behind, Position.settled, hack]

theorem delivered_install (reader : AckReader) (stream : Stream) :
    (reader.install stream).delivered =
      stream.delivered ++ if stream.buffer = [] then [] else [(ackHandler, stream.buffer)] := by
  cases hwatches : reader.watchesClose <;> cases hclosed : stream.closed <;>
    simp [AckReader.install, hwatches, onData_eq, Stream.whenClosed, hclosed]

section Install

variable {stream : Stream} (hopened : stream.closed = false) (reader : AckReader)
include hopened

theorem closed_install : (reader.install stream).closed = false := by
  cases hwatches : reader.watchesClose <;>
    simp [AckReader.install, hwatches, onData_eq, Stream.whenClosed, hopened]

theorem sent_install : (reader.install stream).sent = stream.sent := by
  cases hwatches : reader.watchesClose <;>
    simp [AckReader.install, hwatches, onData_eq, Stream.whenClosed, hopened]

theorem watched_install (hwatches : reader.watchesClose = true) :
    (reader.install stream).Watched stream.closings.length := by
  constructor <;> simp [AckReader.install, hwatches, onData_eq, Stream.whenClosed, hopened]

/-- A reader installed on an idle stream waits for the acknowledgement. -/
theorem acking_install (hdelivered : stream.delivered = []) (hbuffer : stream.buffer = []) :
    (reader.install stream).Acking := by
  refine ⟨closed_install hopened reader, ?_, ?_, ?_, ?_⟩
  · cases hwatches : reader.watchesClose <;>
      simp [AckReader.install, hwatches, onData_eq, Stream.whenClosed, hopened]
  · cases hwatches : reader.watchesClose <;>
      simp [AckReader.install, hwatches, onData_eq, Stream.whenClosed, hopened]
  · cases hwatches : reader.watchesClose <;>
      simp [AckReader.install, hwatches, onData_eq, Stream.whenClosed, hopened]
  · rw [delivered_install, hdelivered, if_pos hbuffer, List.append_nil]

end Install

theorem awaitAck_acking (hacking : stream.Acking) {reader : AckReader} {closing : ℕ}
    (hclosing : reader.watchesClose = true → stream.Watched closing) (result : Result) :
    Running.awaitAck stream reader closing result = ⟨stream, .ack reader closing result⟩ := by
  rw [Running.awaitAck, hacking.none_delivered, List.head?_nil]
  cases hwatches : reader.watchesClose with
  | false => rfl
  | true => rw [(hclosing hwatches).pending]

/-- A function that goes on stands at its next wait. -/
theorem proceed_stands (hidle : stream.Idle) (program : Async Result) :
    Stands engine (program.proceed engine stream) fun tasks input ↦
      (program.sequential engine tasks (stream.buffer ++ input)).behind stream.sent := by
  induction program generalizing stream with
  | throws err =>
    apply Stands.settled
    intro tasks input
    simp [Async.sequential, Position.behind, Position.settled]
  | later next => exact .task hidle fun tasks input ↦ rfl
  | sendFramed body next ih =>
    rw [Async.proceed]
    cases hframe : withProtodelim engine body with
    | error err =>
      simp only [Stream.sendFramed, hframe, Stream.throws, List.getElem?_concat_length]
      apply Stands.settled
      intro tasks input
      simp [Async.sequential, Position.behind, Position.settled, hframe]
    | ok frame =>
      rw [Stream.sendFramed_of_ok hframe hidle.opened]
      simp only [List.getElem?_eq_none le_rfl]
      have hafter : ({ stream with sent := stream.sent ++ [.frame frame] } : Stream).Idle :=
        ⟨hidle.opened, hidle.framed, hidle.none_waits, hidle.none_delivered⟩
      refine (ih hafter).congr ?_
      intro tasks input
      simp only [Async.sequential, hframe]
      rw [Position.behind_behind]
  | readFramed next ih =>
    rw [Async.proceed]
    cases hnext : (protodelim engine).next stream.buffer with
    | some found =>
      obtain ⟨body, rest⟩ := found
      rw [Stream.readFramed_of_some hnext]
      simp only [List.getElem?_concat_length]
      have hafter : ({ stream with buffer := rest, reads := stream.reads ++ [.resolved body] } :
          Stream).Idle :=
        ⟨hidle.opened, hidle.framed, hidle.none_waits, hidle.none_delivered⟩
      refine (ih body hafter).congr ?_
      intro tasks input
      rw [sequential_readFramed hnext]
    | none =>
      have hcut := readProtodelim_of_next_eq_none hnext
      rw [Stream.readFramed_of_none hcut hidle.opened]
      simp only [List.getElem?_concat_length]
      refine .frame ⟨hidle.opened, hidle.framed, ?_, hidle.none_delivered, ?_, hcut⟩ fun tasks input ↦ rfl
      · dsimp only
        rw [hidle.none_waits, List.nil_append]
      · exact List.getElem?_concat_length
  | readAck reader result =>
    have hopened := hidle.opened
    rw [Async.proceed, ← sent_install hopened reader]
    cases hbuffer : stream.buffer with
    | nil =>
      have hacking := acking_install hopened reader hidle.none_delivered hbuffer
      rw [awaitAck_acking hacking (watched_install hopened reader)]
      exact .ack hacking (watched_install hopened reader) fun tasks input ↦ rfl
    | cons ack rest =>
      have hdelivered : (reader.install stream).delivered.head? = some (ackHandler, ack :: rest) := by
        rw [delivered_install, hidle.none_delivered, hbuffer]
        rfl
      rw [Running.awaitAck, hdelivered]
      exact receive_stands (closed_install hopened reader) reader result ack rest

/-- Where the function stands is where it stands in sequence. -/
theorem Stands.position_eq (hstands : Stands engine running future) :
    (future 0 []).sent = running.stream.sent ∧ (future 0 []).rest = running.awaiting.rest ∧
      (running.awaiting.isSettled = false → (future 0 []).unread = running.stream.buffer) := by
  cases hstands with
  | task hidle hfuture => simp [hfuture, Async.sequential, Position.behind, Awaiting.rest]
  | frame hreading hfuture =>
    have hnone := next_of_readProtodelim_none engine hreading.cut
    simp [hfuture, Async.sequential, hnone, Position.behind, Awaiting.rest]
  | ack hacking hclosing hfuture =>
    simp [hfuture, Async.sequential, Position.behind, Awaiting.rest, hacking.nothing_unread]
  | settled hfuture => simp [hfuture, Position.settled, Awaiting.rest, Awaiting.isSettled]

theorem sent_serve (stream : Stream) (waiters : List ℕ) : (stream.serve waiters).sent = stream.sent := by
  induction waiters generalizing stream with
  | nil => rfl
  | cons waiter waiters ih =>
    rw [Stream.serve]
    split
    · rfl
    · rfl
    · exact ih _

theorem sent_onMessage (stream : Stream) (data : MessageData) :
    (stream.onMessage engine data).sent = stream.sent := by
  cases data with
  | text text => rfl
  | arrayBuffer chunk =>
    rw [Stream.onMessage, Stream.onBinary]
    split
    · rfl
    · split
      · rfl
      · exact sent_serve _ _

/-- A binary message is put behind the buffer and the waiting reads are served. -/
theorem onMessage_framed {chunk : Bytes} {waiters : List ℕ} (hframed : stream.dataMode = false)
    (hwaiters : stream.pendingResolvers = waiters)
    (hfits : stream.buffer.length + chunk.length ≤ engine.maxLength) :
    stream.onMessage engine (.arrayBuffer chunk) =
      ({ stream with buffer := stream.buffer ++ chunk } : Stream).serve waiters := by
  have happended : Stream.appended engine stream.buffer chunk = .ok (stream.buffer ++ chunk) := by
    rw [Stream.appended]
    split_ifs with hempty hlong
    · rw [List.length_eq_zero_iff.mp hempty, List.nil_append]
    · exact absurd hfits hlong.not_ge
    · rfl
  rw [Stream.onMessage, Stream.onBinary, hframed, happended, ← hwaiters]

/-- With the reader of the acknowledgement installed, a binary message goes to its handler. -/
theorem onMessage_raw (hacking : stream.Acking) (chunk : Bytes) :
    stream.onMessage engine (.arrayBuffer chunk) = stream.deliver ackHandler chunk := by
  rw [Stream.onMessage, Stream.onBinary, hacking.raw, hacking.handled]

/-- The next binary message takes a function to where reading in sequence stands. -/
theorem Stands.binary (hstands : Stands engine running future) {chunk : Bytes} (hchunk : chunk ≠ [])
    (hfits : running.awaiting.isSettled = false →
      running.stream.buffer.length + chunk.length ≤ engine.maxLength) :
    Stands engine (running.step engine (.binary chunk)) fun tasks input ↦ future tasks (chunk ++ input) := by
  cases hstands with
  | @task stream next _ hidle hfuture =>
    rw [Running.step, onMessage_framed hidle.framed hidle.none_waits (hfits rfl)]
    refine .task ⟨hidle.opened, hidle.framed, hidle.none_waits, hidle.none_delivered⟩ ?_
    intro tasks input
    rw [hfuture, ← List.append_assoc]
    rfl
  | @frame stream read next _ hreading hfuture =>
    rw [Running.step, onMessage_framed hreading.framed hreading.waits (hfits rfl)]
    cases hnext : (protodelim engine).next (stream.buffer ++ chunk) with
    | none =>
      have hcut := readProtodelim_of_next_eq_none hnext
      rw [Stream.serve_of_none hcut]
      dsimp only [Running.resume]
      rw [hreading.pending]
      refine .frame ⟨hreading.opened, hreading.framed, hreading.waits, hreading.none_delivered,
        hreading.pending, hcut⟩ ?_
      intro tasks input
      rw [hfuture, ← List.append_assoc]
    | some found =>
      obtain ⟨body, rest⟩ := found
      rw [Stream.serve_of_some hnext, Stream.serve]
      have hresolved : (stream.reads.modify read (Promise.resolved body).settle)[read]? =
          some (.resolved body) := by
        rw [List.getElem?_modify_eq, hreading.pending]
        rfl
      dsimp only [Running.resume]
      rw [hresolved]
      have hafter : ({ stream with
          buffer := rest
          pendingResolvers := []
          reads := stream.reads.modify read (Promise.resolved body).settle } : Stream).Idle :=
        ⟨hreading.opened, hreading.framed, rfl, hreading.none_delivered⟩
      refine (proceed_stands hafter (next body)).congr ?_
      intro tasks input
      rw [hfuture, ← List.append_assoc, sequential_readFramed hnext]
  | @ack stream reader closing result _ hacking hclosing hfuture =>
    rw [Running.step, onMessage_raw hacking]
    obtain ⟨ack, rest, rfl⟩ := List.exists_cons_of_ne_nil hchunk
    have hdelivered : (stream.deliver ackHandler (ack :: rest)).delivered.head? =
        some (ackHandler, ack :: rest) := by
      rw [Stream.deliver, hacking.none_delivered]
      rfl
    dsimp only [Running.resume]
    rw [Running.awaitAck, hdelivered]
    have hopened : (stream.deliver ackHandler (ack :: rest)).closed = false := hacking.opened
    refine (receive_stands hopened reader result ack rest).congr ?_
    intro tasks input
    rw [hfuture]
    rfl
  | @settled stream outcome _ hfuture =>
    refine .settled fun tasks input ↦ ?_
    rw [hfuture, sent_onMessage]

/-- A text message changes nothing. -/
theorem Stands.text (hstands : Stands engine running future) (text : String) :
    Stands engine (running.step engine (.message (.text text))) future := by
  cases hstands with
  | task hidle hfuture => exact .task hidle hfuture
  | frame hreading hfuture =>
    dsimp only [Running.step, Running.resume, Stream.onMessage]
    rw [hreading.pending]
    exact .frame hreading hfuture
  | ack hacking hclosing hfuture =>
    dsimp only [Running.step, Running.resume, Stream.onMessage]
    rw [awaitAck_acking hacking hclosing]
    exact .ack hacking hclosing hfuture
  | settled hfuture => exact .settled hfuture

/-- The end of a task takes a function to where reading in sequence stands. -/
theorem Stands.task_step (hstands : Stands engine running future) (htask : running.awaiting.isTask = true) :
    Stands engine (running.step engine .task) fun tasks input ↦ future (tasks + 1) input := by
  cases hstands with
  | task hidle hfuture =>
    refine (proceed_stands hidle _).congr ?_
    intro tasks input
    rw [hfuture, Async.sequential]
  | frame | ack | settled => cases htask

/-! ## Runs -/

/-- The bytes that an event brings. -/
def ClientEvent.chunk : ClientEvent → Bytes
  | message (.arrayBuffer chunk) => chunk
  | _ => []

/-- Something arrives that can be taken in, or a task ends. -/
def Steady (engine : Engine) (running : Running Result) : ClientEvent → Prop
  | .message (.arrayBuffer chunk) =>
    chunk ≠ [] ∧ (running.awaiting.isSettled = false →
      running.stream.buffer.length + chunk.length ≤ engine.maxLength)
  | .message (.text _) => True
  | .task => True
  | _ => False

instance (engine : Engine) (running : Running Result) (event : ClientEvent) :
    Decidable (Steady engine running event) := by
  rcases event with ⟨_ | _⟩ | _ | _ | _ <;> dsimp only [Steady] <;> infer_instance

def received (events : List ClientEvent) : Bytes := events.flatMap ClientEvent.chunk

def tasksEnded (events : List ClientEvent) : ℕ := events.count .task

/-- A steady run takes a function to where reading in sequence stands. -/
theorem Stands.run {program : Async Result} {events : List ClientEvent}
    (hstands : Stands engine running future)
    (hlegal : (asyncMachine engine program).Legal running events)
    (hsteady : (asyncMachine engine program).Along (Steady engine) running events) :
    Stands engine ((asyncMachine engine program).run running events) fun tasks input ↦
      future (tasksEnded events + tasks) (received events ++ input) := by
  induction events generalizing running future with
  | nil =>
    refine hstands.congr fun tasks input ↦ ?_
    rw [tasksEnded, List.count_nil, Nat.zero_add]
    rfl
  | cons event events ih =>
    obtain ⟨hallowed, hlegal⟩ := hlegal
    obtain ⟨hfirst, hsteady⟩ := hsteady
    rw [Machine.run_cons]
    cases event with
    | message data =>
      cases data with
      | arrayBuffer chunk =>
        refine (ih (hstands.binary hfirst.1 hfirst.2) hlegal hsteady).congr fun tasks input ↦ ?_
        simp [tasksEnded, received, ClientEvent.chunk]
      | text text => exact ih (hstands.text text) hlegal hsteady
    | task =>
      refine (ih (hstands.task_step hallowed) hlegal hsteady).congr fun tasks input ↦ ?_
      simp [tasksEnded, received, ClientEvent.chunk, Nat.add_right_comm]
    | error | closed => exact absurd hfirst not_false

theorem idle_newStream : newStream.Idle := ⟨rfl, rfl, rfl, rfl⟩

end Mosey.Typescript
