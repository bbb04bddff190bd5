import Mosey.Library.Lists
import Mosey.Library.Machine
import Mosey.Typescript.Protodelim

/-!
# The stream of the client

A `Stream` turns the binary frames of a WebSocket into messages for `readFramed` and, from `onData` on,
into raw bytes. A message can be taken from what is buffered when it is asked for, or go to a call that
waits when its last bytes come. An outcome is never taken back, but a length that overflows is waited for
in vain.
-/

namespace Mosey.Typescript

open Library

inductive StreamError
  | websocketError
  | streamClosed
  | websocketClosed (code : ℕ) (reason : String)
  | decode (err : DecodeError)
  | range (err : RangeError)
  deriving DecidableEq

inductive Promise (Value : Type)
  | pending
  | resolved (value : Value)
  | rejected (err : StreamError)
  deriving DecidableEq

/-- The first outcome of a promise is the last one. -/
def Promise.settle {Value : Type} (outcome : Promise Value) : Promise Value → Promise Value
  | pending => outcome
  | settled => settled

inductive Outgoing
  | frame (data : Bytes)
  | close (code : ℕ)
  deriving DecidableEq

/-- The fields of a stream, then what its users and its socket have seen: the promises of `readFramed` and
of `whenClosed` in the order of the calls, the data of each handler, and what was thrown. A resolver is the
number of its promise, and handlers are numbered too. -/
structure Stream where
  buffer : Bytes
  pendingResolvers : List ℕ
  closed : Bool
  closeError : Option StreamError
  dataHandler : Option ℕ
  dataMode : Bool
  closeWaiters : List ℕ
  reads : List (Promise Bytes)
  closings : List (Promise StreamError)
  delivered : List (ℕ × Bytes)
  sent : List Outgoing
  thrown : List StreamError
  deriving DecidableEq

def newStream : Stream := ⟨[], [], false, none, none, false, [], [], [], [], [], []⟩

namespace Stream

def throws (stream : Stream) (err : StreamError) : Stream :=
  { stream with thrown := stream.thrown ++ [err] }

def closeReason (stream : Stream) : StreamError := stream.closeError.getD .streamClosed

def settleAll {Value : Type} (waiters : List ℕ) (outcome : Promise Value)
    (promises : List (Promise Value)) : List (Promise Value) :=
  waiters.foldl (fun promises waiter ↦ promises.modify waiter outcome.settle) promises

def fail (stream : Stream) (err : StreamError) : Stream :=
  { stream with
    closed := true
    closeError := some err
    reads := settleAll stream.pendingResolvers (.rejected err) stream.reads
    pendingResolvers := []
    closings := settleAll stream.closeWaiters (.resolved err) stream.closings
    closeWaiters := [] }

def onclose (stream : Stream) (code : ℕ) (reason : String) : Stream :=
  if code = 1000 ∨ code = 1001 ∨ code = 1005 then stream.fail .streamClosed
  else stream.fail (.websocketClosed code reason)

def send (stream : Stream) (data : Bytes) : Stream :=
  if stream.closed then stream.throws stream.closeReason
  else { stream with sent := stream.sent ++ [.frame data] }

def sendFramed (engine : Engine) (stream : Stream) (body : Bytes) : Stream :=
  match withProtodelim engine body with
  | .error err => stream.throws (.range err)
  | .ok frame => stream.send frame

/-- The call runs to its end at once, since nothing in it is awaited. -/
def readFramed (stream : Stream) : Stream :=
  match readProtodelim stream.buffer with
  | .error err => { stream with reads := stream.reads ++ [.rejected (.decode err)] }
  | .ok (some ready) =>
    { stream with
      buffer := stream.buffer.drop ready.n
      reads := stream.reads ++ [.resolved ready.msg] }
  | .ok none =>
    if stream.closed then { stream with reads := stream.reads ++ [.rejected stream.closeReason] }
    else
      { stream with
        pendingResolvers := stream.pendingResolvers ++ [stream.reads.length]
        reads := stream.reads ++ [.pending] }

def deliver (stream : Stream) (handler : ℕ) (data : Bytes) : Stream :=
  { stream with delivered := stream.delivered ++ [(handler, data)] }

def onData (stream : Stream) (handler : ℕ) : Stream :=
  let stream := { stream with dataHandler := some handler, dataMode := true }
  if 0 < stream.buffer.length then { stream.deliver handler stream.buffer with buffer := [] } else stream

def close (stream : Stream) : Stream :=
  if stream.closed then stream else { stream with closed := true, sent := stream.sent ++ [.close 1000] }

def whenClosed (stream : Stream) : Stream :=
  if stream.closed then { stream with closings := stream.closings ++ [.resolved stream.closeReason] }
  else
    { stream with
      closeWaiters := stream.closeWaiters ++ [stream.closings.length]
      closings := stream.closings ++ [.pending] }

/-- What arrives behind something is copied into a new array. -/
def appended (engine : Engine) (buffer chunk : Bytes) : Except RangeError Bytes :=
  if buffer.length = 0 then .ok chunk
  else if engine.maxLength < buffer.length + chunk.length then .error ⟨buffer.length + chunk.length⟩
  else .ok (buffer ++ chunk)

/-- The loop at the end of `onMessage`. -/
def serve (stream : Stream) : List ℕ → Stream
  | [] => stream
  | waiter :: waiters =>
    match readProtodelim stream.buffer with
    | .error err => stream.throws (.decode err)
    | .ok none => stream
    | .ok (some ready) =>
      serve
        { stream with
          buffer := stream.buffer.drop ready.n
          pendingResolvers := waiters
          reads := stream.reads.modify waiter (Promise.resolved ready.msg).settle }
        waiters

/-- A binary frame. An error thrown here has no one to catch it. -/
def onBinary (engine : Engine) (stream : Stream) (chunk : Bytes) : Stream :=
  match stream.dataMode, stream.dataHandler with
  | true, some handler => stream.deliver handler chunk
  | _, _ =>
    match appended engine stream.buffer chunk with
    | .error err => stream.throws (.range err)
    | .ok buffer => serve { stream with buffer := buffer } stream.pendingResolvers

end Stream

inductive MessageData
  | arrayBuffer (chunk : Bytes)
  | text (text : String)
  deriving DecidableEq

def Stream.onMessage (engine : Engine) (stream : Stream) : MessageData → Stream
  | .arrayBuffer chunk => stream.onBinary engine chunk
  | .text _ => stream

/-- What happens to a stream, from the side of the socket and from its users. -/
inductive StreamEvent
  | message (data : MessageData)
  | error
  | closed (code : ℕ) (reason : String)
  | send (data : Bytes)
  | sendFramed (body : Bytes)
  | readFramed
  | onData (handler : ℕ)
  | close
  | whenClosed
  deriving DecidableEq

abbrev StreamEvent.binary (chunk : Bytes) : StreamEvent := message (.arrayBuffer chunk)

/-- An array buffer that arrives is one that can be viewed as a typed array. -/
def streamMachine (engine : Engine) : Machine Stream StreamEvent where
  init := newStream
  allowed _
    | .message (.arrayBuffer chunk) => chunk.length ≤ engine.maxLength
    | _ => True
  step stream
    | .message data => stream.onMessage engine data
    | .error => stream.fail .websocketError
    | .closed code reason => stream.onclose code reason
    | .send data => stream.send data
    | .sendFramed body => stream.sendFramed engine body
    | .readFramed => stream.readFramed
    | .onData handler => stream.onData handler
    | .close => stream.close
    | .whenClosed => stream.whenClosed

/-- A promise with an outcome keeps it. -/
def Stream.Keeps (stream next : Stream) : Prop :=
  ∀ (index : ℕ) (outcome : Promise Bytes), outcome ≠ .pending → stream.reads[index]? = some outcome →
    next.reads[index]? = some outcome

section Keeps

variable {Value : Type} {promises : List (Promise Value)} {index : ℕ} {outcome : Promise Value}

theorem Promise.settle_of_ne_pending (hsettled : outcome ≠ .pending) (other : Promise Value) :
    other.settle outcome = outcome := by
  cases outcome with
  | pending => exact absurd rfl hsettled
  | resolved | rejected => rfl

theorem getElem?_modify_settle (hsettled : outcome ≠ .pending) (houtcome : promises[index]? = some outcome)
    (waiter : ℕ) (other : Promise Value) :
    (promises.modify waiter other.settle)[index]? = some outcome := by
  rw [List.getElem?_modify, houtcome, Option.map_eq_map, Option.map_some]
  split_ifs
  · rw [Promise.settle_of_ne_pending hsettled]
  · rfl

/-- A promise that is settled stays as it is. -/
theorem getElem?_settleAll (hsettled : outcome ≠ .pending) (houtcome : promises[index]? = some outcome)
    (waiters : List ℕ) (other : Promise Value) :
    (Stream.settleAll waiters other promises)[index]? = some outcome := by
  induction waiters generalizing promises with
  | nil => exact houtcome
  | cons waiter waiters ih => exact ih (getElem?_modify_settle hsettled houtcome waiter other)

end Keeps

namespace Stream

variable {engine : Engine} {stream : Stream}

theorem keeps_of_reads_eq {next : Stream} (hreads : next.reads = stream.reads) : stream.Keeps next := by
  intro index outcome _ houtcome
  rw [hreads, houtcome]

theorem keeps_of_reads_append {next : Stream} {outcome : Promise Bytes}
    (hreads : next.reads = stream.reads ++ [outcome]) : stream.Keeps next := by
  intro index kept _ hkept
  rw [hreads]
  exact getElem?_append_of_eq_some hkept _

/-- Serving the waiting reads settles no promise again. -/
theorem keeps_serve (stream : Stream) (waiters : List ℕ) : stream.Keeps (stream.serve waiters) := by
  induction waiters generalizing stream with
  | nil => exact keeps_of_reads_eq rfl
  | cons waiter waiters ih =>
    rw [serve]
    split
    · exact keeps_of_reads_eq rfl
    · exact keeps_of_reads_eq rfl
    · intro index outcome hsettled houtcome
      exact ih _ index outcome hsettled (getElem?_modify_settle hsettled houtcome waiter _)

theorem keeps_readFramed (stream : Stream) : stream.Keeps stream.readFramed := by
  rw [readFramed]
  split
  · exact keeps_of_reads_append rfl
  · exact keeps_of_reads_append rfl
  · split <;> exact keeps_of_reads_append rfl

theorem keeps_fail (stream : Stream) (err : StreamError) : stream.Keeps (stream.fail err) := by
  intro index outcome hsettled houtcome
  exact getElem?_settleAll hsettled houtcome _ _

theorem keeps_send (stream : Stream) (data : Bytes) : stream.Keeps (stream.send data) := by
  rw [send]
  split <;> exact keeps_of_reads_eq rfl

theorem keeps_onMessage (engine : Engine) (stream : Stream) (data : MessageData) :
    stream.Keeps (stream.onMessage engine data) := by
  cases data with
  | text text => exact keeps_of_reads_eq rfl
  | arrayBuffer chunk =>
    rw [onMessage, onBinary]
    split
    · exact keeps_of_reads_eq rfl
    · cases appended engine stream.buffer chunk with
      | error err => exact keeps_of_reads_eq rfl
      | ok buffer => exact keeps_serve { stream with buffer := buffer } stream.pendingResolvers

/-- No event settles a promise again. -/
theorem keeps_step (engine : Engine) (stream : Stream) (event : StreamEvent) :
    stream.Keeps ((streamMachine engine).step stream event) := by
  cases event with
  | message data => exact keeps_onMessage engine stream data
  | error => exact keeps_fail stream _
  | closed code reason =>
    dsimp only [streamMachine, onclose]
    split_ifs <;> exact keeps_fail stream _
  | send data => exact keeps_send stream data
  | sendFramed body =>
    dsimp only [streamMachine, sendFramed]
    cases withProtodelim engine body with
    | error err => exact keeps_of_reads_eq rfl
    | ok frame => exact keeps_send stream frame
  | readFramed => exact keeps_readFramed stream
  | onData handler =>
    dsimp only [streamMachine, onData]
    split_ifs <;> exact keeps_of_reads_eq rfl
  | close =>
    dsimp only [streamMachine, close]
    split_ifs <;> exact keeps_of_reads_eq rfl
  | whenClosed =>
    dsimp only [streamMachine, whenClosed]
    split_ifs <;> exact keeps_of_reads_eq rfl

/-- No event takes an outcome back. -/
theorem keeps_run (engine : Engine) (stream : Stream) (events : List StreamEvent) :
    stream.Keeps ((streamMachine engine).run stream events) := by
  induction events generalizing stream with
  | nil => exact keeps_of_reads_eq rfl
  | cons event events ih =>
    intro index outcome hsettled houtcome
    exact ih _ index outcome hsettled (keeps_step engine stream event index outcome hsettled houtcome)

theorem readFramed_of_some {body rest : Bytes}
    (hnext : (protodelim engine).next stream.buffer = some (body, rest)) :
    stream.readFramed = { stream with buffer := rest, reads := stream.reads ++ [.resolved body] } := by
  obtain ⟨ready, hready, rfl, rfl⟩ := exists_ready_of_next hnext
  rw [readFramed, hready]

theorem readFramed_of_none (hnone : readProtodelim stream.buffer = .ok none)
    (hopen : stream.closed = false) :
    stream.readFramed =
      { stream with
        pendingResolvers := stream.pendingResolvers ++ [stream.reads.length]
        reads := stream.reads ++ [.pending] } := by
  rw [readFramed, hnone]
  dsimp only
  rw [hopen, if_neg Bool.false_ne_true]

/-- The read that has waited longest is given the next message. -/
theorem serve_of_some {body rest : Bytes}
    (hnext : (protodelim engine).next stream.buffer = some (body, rest)) (waiter : ℕ) (waiters : List ℕ) :
    stream.serve (waiter :: waiters) =
      serve
        { stream with
          buffer := rest
          pendingResolvers := waiters
          reads := stream.reads.modify waiter (Promise.resolved body).settle }
        waiters := by
  obtain ⟨ready, hready, rfl, rfl⟩ := exists_ready_of_next hnext
  rw [serve, hready]

theorem serve_of_none (hnone : readProtodelim stream.buffer = .ok none) (waiters : List ℕ) :
    stream.serve waiters = stream := by
  cases waiters with
  | nil => rfl
  | cons waiter waiters => rw [serve, hnone]

end Stream

variable {engine : Engine}

/-- When what is left can never become a message, a call is rejected and none waits. -/
def RejectsMalformed (engine : Engine) (buf : Bytes) : Prop :=
  ∀ events, (streamMachine engine).Legal newStream events →
    let stream := (streamMachine engine).run newStream events
    stream.buffer = buf → ¬ Completable buf →
      (∃ err, stream.readFramed.reads.getLast? = some (.rejected err)) ∧ .pending ∉ stream.reads

/-- Behind groups that overflow, messages pile up in the buffer. -/
theorem onMessage_headerOverflows {stream : Stream} (hoverflows : HeaderOverflows stream.buffer)
    (hbuffer : stream.buffer.length ≤ engine.maxLength) (chunk : Bytes) :
    let next := stream.onMessage engine (.arrayBuffer chunk)
    next.reads = stream.reads ∧ HeaderOverflows next.buffer ∧ next.buffer.length ≤ engine.maxLength := by
  have hne : ¬ stream.buffer.length = 0 := by
    obtain ⟨nine, tenth, rest, hsplit, -⟩ := hoverflows
    rw [hsplit, List.length_append, List.length_cons]
    omega
  rw [Stream.onMessage, Stream.onBinary, Stream.appended, if_neg hne]
  split
  · exact ⟨rfl, hoverflows, hbuffer⟩
  · split_ifs with hlong
    · exact ⟨rfl, hoverflows, hbuffer⟩
    · have hlength : (stream.buffer ++ chunk).length ≤ engine.maxLength := by
        rw [List.length_append]
        exact Nat.le_of_not_lt hlong
      have hnone := readProtodelim_of_headerOverflows (hlength.trans_lt engine.maxLength_lt)
        (hoverflows.append chunk)
      dsimp only
      rw [Stream.serve_of_none hnone]
      exact ⟨rfl, hoverflows.append chunk, hlength⟩

/-- Nothing that arrives gives any call its outcome. -/
theorem run_headerOverflows {stream : Stream} (hoverflows : HeaderOverflows stream.buffer)
    (hbuffer : stream.buffer.length ≤ engine.maxLength) (chunks : List Bytes) :
    ((streamMachine engine).run stream (chunks.map .binary)).reads = stream.reads := by
  induction chunks generalizing stream with
  | nil => rfl
  | cons chunk chunks ih =>
    obtain ⟨hreads, hnext, hlength⟩ := onMessage_headerOverflows hoverflows hbuffer chunk
    exact (ih hnext hlength).trans hreads

/-- The stream waits for frames only unless a length overflows, and then it waits for ever. -/
theorem stream_waits_for_frames_only_iff (engine : Engine) (buf : Bytes)
    (hbuf : buf.length ≤ engine.maxLength) :
    (WaitsForFramesOnly buf ∧ RejectsMalformed engine buf ↔ ¬ HeaderOverflows buf) ∧
    (HeaderOverflows buf → ∀ (stream : Stream) (chunks : List Bytes), stream.buffer = buf →
      stream.closed = false →
      ((streamMachine engine).run stream.readFramed (chunks.map .binary)).reads =
        stream.reads ++ [.pending]) := by
  have hiff := waitsForFramesOnly_iff (hbuf.trans_lt engine.maxLength_lt)
  refine ⟨⟨fun hwaits ↦ hiff.mp hwaits.1, fun hfits ↦ ⟨hiff.mpr hfits, ?_⟩⟩, ?_⟩
  · intro events _ stream _ hnot
    exact absurd (completable_of_not_headerOverflows hfits) hnot
  · rintro hoverflows stream chunks rfl hopen
    have hnone := readProtodelim_of_headerOverflows (hbuf.trans_lt engine.maxLength_lt) hoverflows
    rw [Stream.readFramed_of_none hnone hopen]
    apply run_headerOverflows
    · exact hoverflows
    · exact hbuf

theorem stream_waits_for_frames_only_example :
    WaitsForFramesOnly [0x02, 0x68] ∧ RejectsMalformed exampleEngine [0x02, 0x68] := by
  refine (stream_waits_for_frames_only_iff exampleEngine [0x02, 0x68] (by decide)).1.mpr ?_
  rintro ⟨nine, tenth, rest, heq, hnine, -⟩
  have hlength := congrArg List.length heq
  simp only [List.length_append, List.length_cons, List.length_nil, hnine] at hlength
  omega

def tenOnes : Bytes := List.replicate 10 0xff

/-- The reader knows of the overflow and asks for more, and the calls wait while bytes pile up. -/
theorem overflow_waited_for :
    decodeVarint tenOnes 0 = .error .varintOverflow ∧ readProtodelim tenOnes = .ok none ∧
    ¬ BeginsFrame tenOnes ∧ ¬ Completable tenOnes ∧ ¬ WaitsForFramesOnly tenOnes ∧
    ¬ RejectsMalformed exampleEngine tenOnes ∧
    (let final := (streamMachine exampleEngine).run newStream
      [.readFramed, .binary tenOnes, .binary tenOnes, .readFramed]
    final.reads = [.pending, .pending] ∧ final.buffer.length = 20) := by
  have hoverflows : HeaderOverflows tenOnes :=
    ⟨List.replicate 9 0xff, 0xff, [], rfl, rfl, by decide +kernel, by decide⟩
  have hnot := hoverflows.not_completable
  refine ⟨by decide +kernel, by decide +kernel, ?_, hnot, ?_, ?_, by decide +kernel, by decide +kernel⟩
  · rintro ⟨frame, hframe, hstart, -⟩
    exact hnot ⟨frame, hframe, .inl hstart⟩
  · exact fun hwaits ↦ (waitsForFramesOnly_iff (by decide)).mp hwaits hoverflows
  · intro hrejects
    have hlegal : (streamMachine exampleEngine).Legal newStream [.readFramed, .binary tenOnes] :=
      ⟨trivial, (by decide : tenOnes.length ≤ 4294967296), trivial⟩
    have hpending : .pending ∈ ((streamMachine exampleEngine).run newStream
        [.readFramed, .binary tenOnes]).reads := by decide +kernel
    exact (hrejects _ hlegal (by decide +kernel) hnot).2 hpending

end Mosey.Typescript
