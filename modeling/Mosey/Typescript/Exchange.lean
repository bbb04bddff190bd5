import Mosey.Auth.Delimited
import Mosey.Typescript.Closing

/-!
# A function of the client and its server

The client runs beside a server that answers what it is sent. Frames are cut anywhere, tasks end at any
time, and the server closes the stream behind what it has written when it is done.

Whatever the order, the function ends as it does when every call blocks until the server has answered. A
postcondition is followed along that one run, and it holds in every exchange when the function has an
outcome and when nothing more can happen. The only race is between a send and the end of the stream.
-/

namespace Mosey.Typescript

open Library Auth

variable {Result : Type}

/-- A server that reads in sequence: what it has written stays, and nothing is read when it is done. -/
structure Peer where
  answer : Bytes → Answer
  written_append : ∀ sent more, (answer sent).written <+: (answer (sent ++ more)).written
  answer_append : ∀ sent more, (answer sent).status ≠ .waiting → answer (sent ++ more) = answer sent

def Peer.done (peer : Peer) (sent : Bytes) : Bool := (peer.answer sent).status ≠ .waiting

/-- What the server has written behind what the client has read. -/
def Peer.toRead (peer : Peer) (sent : Bytes) (consumed : ℕ) : Bytes :=
  (peer.answer sent).written.drop consumed

def Outgoing.data : Outgoing → Bytes
  | frame data => data
  | close _ => []

def sentBytes (sent : List Outgoing) : Bytes := sent.flatMap Outgoing.data

theorem sentBytes_append (first second : List Outgoing) :
    sentBytes (first ++ second) = sentBytes first ++ sentBytes second :=
  List.flatMap_append

def Peer.ofListener {Run Message : Type} {Encodes : Message → Bytes → Prop} (listener : Listener Run Message)
    (codec : Protodelim Message Encodes) (run : Run) : Peer where
  answer := listener.serve codec run
  written_append := Listener.written_append run
  answer_append _ more := Listener.serve_append more

section Meets

variable (engine : Engine) (peer : Peer) (post : Bytes → Rest Result → Prop)

/-- The function waits for more than the server will write. It hears of the end of the stream or not. -/
def Peer.leaves (sent : Bytes) (rest : Rest Result) (hears : Bool) : Prop :=
  if peer.done sent && hears then ∀ reason, post sent (.settled (.error (.stream reason)))
  else post sent rest

/-- The function ends as `post` has it when every call blocks, from what was sent and read before. -/
def Async.meets : Async Result → Bytes → ℕ → Prop
  | throws err, sent, _ => post sent (.settled (.error err))
  | later next, sent, consumed => next.meets sent consumed
  | sendFramed body next, sent, consumed =>
    match withProtodelim engine body with
    | .error err => post sent (.settled (.error (.stream (.range err))))
    | .ok frame =>
      next.meets (sent ++ frame) consumed ∧
        (peer.answer (sent ++ frame)).written.length ≤ engine.maxLength ∧
        (peer.done sent = true → ∀ reason, post sent (.settled (.error (.stream reason))))
  | readFramed next, sent, consumed =>
    match (protodelim engine).next (peer.toRead sent consumed) with
    | some (body, rest) => (next body).meets sent ((peer.answer sent).written.length - rest.length)
    | none => peer.leaves post sent (.frame next) true
  | readAck reader result, sent, consumed =>
    match peer.toRead sent consumed with
    | [] => peer.leaves post sent (.ack reader result) reader.watchesClose
    | ack :: _ =>
      if ack = AckOK then post sent (.settled (.ok result))
      else post sent (.settled (.error (reader.unexpectedAck ack)))

def Rest.meets : Rest Result → Bytes → ℕ → Prop
  | task next => (Async.later next).meets engine peer post
  | frame next => (Async.readFramed next).meets engine peer post
  | ack reader result => (Async.readAck reader result).meets engine peer post
  | settled outcome => fun sent _ ↦ post sent (.settled outcome)

/-- Where the function stands between what has arrived and what the server has written. -/
structure Heard (position : Position Result) (received : Bytes) (consumed : ℕ) : Prop where
  consumed_le : consumed ≤ received.length
  unread_eq : position.unread = received.drop consumed
  arrives : received <+: (peer.answer (sentBytes position.sent)).written
  fits : (peer.answer (sentBytes position.sent)).written.length ≤ engine.maxLength
  meets : position.rest.meets engine peer post (sentBytes position.sent) consumed

end Meets

variable {engine : Engine} {peer : Peer} {post : Bytes → Rest Result → Prop}

theorem suffix_of_next {buffer body rest : Bytes}
    (hnext : (protodelim engine).next buffer = some (body, rest)) :
    rest <:+ buffer := by
  obtain ⟨ready, -, -, rfl⟩ := exists_ready_of_next hnext
  exact List.drop_suffix _ _

variable {received : Bytes} {consumed : ℕ} {program : Async Result}

/-- A function that has its outcome has read all. -/
theorem heard_settled {sent more : List Outgoing} {outcome : Except ClientError Result}
    (hmore : sentBytes more = []) (harrives : received <+: (peer.answer (sentBytes sent)).written)
    (hfits : (peer.answer (sentBytes sent)).written.length ≤ engine.maxLength)
    (hpost : post (sentBytes sent) (.settled outcome)) :
    Heard engine peer post ((Position.settled more outcome).behind sent) received received.length := by
  have hsent : sentBytes (sent ++ more) = sentBytes sent := by
    rw [sentBytes_append, hmore, List.append_nil]
  refine ⟨le_rfl, List.drop_length.symm, ?_, ?_, ?_⟩
  · exact hsent.symm ▸ harrives
  · exact hsent.symm ▸ hfits
  · exact hsent.symm ▸ hpost

/-- A function that blocks, with what it has not consumed in front of it. -/
theorem heard_blocked {sent : List Outgoing} (hle : consumed ≤ received.length)
    (harrives : received <+: (peer.answer (sentBytes sent)).written)
    (hfits : (peer.answer (sentBytes sent)).written.length ≤ engine.maxLength) (rest : Rest Result)
    (hmeets : rest.meets engine peer post (sentBytes sent) consumed) :
    Heard engine peer post ((⟨[], rest, received.drop consumed⟩ : Position Result).behind sent) received
      consumed := by
  have hsent : sentBytes (sent ++ []) = sentBytes sent := by rw [List.append_nil]
  exact ⟨hle, rfl, hsent.symm ▸ harrives, hsent.symm ▸ hfits, hsent.symm ▸ hmeets⟩

/-- The function goes on to where it blocks on what has arrived. -/
theorem heard_sequential {sent : List Outgoing}
    (hmeets : program.meets engine peer post (sentBytes sent) consumed)
    (hle : consumed ≤ received.length) (harrives : received <+: (peer.answer (sentBytes sent)).written)
    (hfits : (peer.answer (sentBytes sent)).written.length ≤ engine.maxLength) (tasks : ℕ) :
    ∃ consumed', Heard engine peer post
      ((program.sequential engine tasks (received.drop consumed)).behind sent) received consumed' := by
  induction program generalizing sent consumed tasks with
  | throws err => exact ⟨_, heard_settled rfl harrives hfits hmeets⟩
  | later next ih =>
    cases tasks with
    | zero => exact ⟨_, heard_blocked hle harrives hfits (.task next) hmeets⟩
    | succ tasks => exact ih hmeets hle harrives hfits tasks
  | sendFramed body next ih =>
    rw [Async.sequential]
    rw [Async.meets] at hmeets
    cases hframe : withProtodelim engine body with
    | error err =>
      rw [hframe] at hmeets
      exact ⟨_, heard_settled rfl harrives hfits hmeets⟩
    | ok frame =>
      rw [hframe] at hmeets
      obtain ⟨hmeets, hfits, -⟩ := hmeets
      have hsent : sentBytes (sent ++ [.frame frame]) = sentBytes sent ++ frame := by
        rw [sentBytes_append, sentBytes, sentBytes, List.flatMap_singleton, Outgoing.data]
      dsimp only
      rw [Position.behind_behind]
      rw [← hsent] at hmeets hfits
      apply ih hmeets hle _ hfits
      rw [hsent]
      exact harrives.trans (peer.written_append _ _)
  | readFramed next ih =>
    rw [Async.sequential]
    cases hnext : (protodelim engine).next (received.drop consumed) with
    | none => exact ⟨_, heard_blocked hle harrives hfits (.frame next) hmeets⟩
    | some found =>
      obtain ⟨body, rest⟩ := found
      obtain ⟨more, hmore⟩ := harrives
      have hsuffix : rest <:+ received := (suffix_of_next hnext).trans (List.drop_suffix _ _)
      have htoRead : peer.toRead (sentBytes sent) consumed = received.drop consumed ++ more := by
        rw [Peer.toRead, ← hmore, List.drop_append_of_le_length hle]
      have hconsumed : (peer.answer (sentBytes sent)).written.length - (rest ++ more).length =
          received.length - rest.length := by
        rw [← hmore, List.length_append, List.length_append, Nat.add_sub_add_right]
      rw [Async.meets, htoRead, next_append hnext] at hmeets
      dsimp only at hmeets ⊢
      rw [hconsumed] at hmeets
      rw [List.suffix_iff_eq_drop.mp hsuffix]
      exact ih body hmeets (Nat.sub_le _ _) ⟨more, hmore⟩ hfits tasks
  | readAck reader result =>
    cases hinput : received.drop consumed with
    | nil =>
      have hblocked := heard_blocked hle harrives hfits (.ack reader result) hmeets
      rw [hinput] at hblocked
      exact ⟨consumed, hblocked⟩
    | cons ack others =>
      obtain ⟨more, hmore⟩ := harrives
      have htoRead : peer.toRead (sentBytes sent) consumed = ack :: (others ++ more) := by
        rw [Peer.toRead, ← hmore, List.drop_append_of_le_length hle, hinput, List.cons_append]
      rw [Async.meets, htoRead] at hmeets
      rw [Async.sequential]
      dsimp only at hmeets ⊢
      split_ifs at hmeets ⊢ with hack
      · exact ⟨_, heard_settled rfl ⟨more, hmore⟩ hfits hmeets⟩
      · exact ⟨_, heard_settled rfl ⟨more, hmore⟩ hfits hmeets⟩

/-- The position after more tasks and more input. -/
def Position.resume (engine : Engine) (position : Position Result) (tasks : ℕ) (input : Bytes) :
    Position Result :=
  let go (program : Async Result) : Position Result :=
    (program.sequential engine tasks (position.unread ++ input)).behind position.sent
  match position.rest with
  | .task next => go (.later next)
  | .frame next => go (.readFramed next)
  | .ack reader result => go (.readAck reader result)
  | .settled outcome => .settled position.sent outcome

/-- All that a function will do is in where it stands. -/
theorem Stands.future_eq {running : Running Result} {future : ℕ → Bytes → Position Result}
    (hstands : Stands engine running future) (tasks : ℕ) (input : Bytes) :
    future tasks input = (future 0 []).resume engine tasks input := by
  obtain ⟨hsent, hrest, hunread⟩ := hstands.position_eq
  rw [Position.resume, hsent, hrest]
  cases hstands with
  | task hidle hfuture => rw [hunread rfl, hfuture]; rfl
  | frame hreading hfuture => rw [hunread rfl, hfuture]; rfl
  | ack hacking hclosing hfuture => rw [hunread rfl, hacking.nothing_unread, hfuture]; rfl
  | settled hfuture => exact hfuture tasks input

/-- More bytes of the answer take what was heard further. -/
theorem Heard.resume {position : Position Result} {received chunk : Bytes}
    (hheard : Heard engine peer post position received consumed)
    (harrives : received ++ chunk <+: (peer.answer (sentBytes position.sent)).written) (tasks : ℕ) :
    ∃ consumed',
      Heard engine peer post (position.resume engine tasks chunk) (received ++ chunk) consumed' := by
  have hle : consumed ≤ (received ++ chunk).length := by
    rw [List.length_append]
    exact hheard.consumed_le.trans (Nat.le_add_right _ _)
  have hunread : position.unread ++ chunk = (received ++ chunk).drop consumed := by
    rw [hheard.unread_eq, List.drop_append_of_le_length hheard.consumed_le]
  have hmeets := hheard.meets
  rw [Position.resume, hunread]
  cases hrest : position.rest with
  | task next =>
    rw [hrest] at hmeets
    exact heard_sequential hmeets hle harrives hheard.fits tasks
  | frame next =>
    rw [hrest] at hmeets
    exact heard_sequential hmeets hle harrives hheard.fits tasks
  | ack reader result =>
    rw [hrest] at hmeets
    exact heard_sequential hmeets hle harrives hheard.fits tasks
  | settled outcome =>
    rw [hrest] at hmeets
    have hsame : Position.settled position.sent outcome =
        (Position.settled [] outcome).behind position.sent := by
      rw [Position.behind, Position.settled, Position.settled, List.append_nil]
    dsimp only
    rw [hsame]
    exact ⟨_, heard_settled rfl harrives hheard.fits hmeets⟩

def Rest.isTask : Rest Result → Bool
  | task _ => true
  | _ => false

/-- A function whose stream is closed behind all that the server wrote. -/
theorem post_closedRest {sent : Bytes} {consumed tasks : ℕ} {reason : StreamError}
    (hmeets : program.meets engine peer post sent consumed) (hdone : peer.done sent = true)
    (htask : (program.closedRest engine reason tasks (peer.toRead sent consumed)).isTask = false) :
    post sent (program.closedRest engine reason tasks (peer.toRead sent consumed)) := by
  induction program generalizing consumed tasks with
  | throws err => exact hmeets
  | later next ih =>
    cases tasks with
    | zero => cases htask
    | succ tasks => exact ih hmeets htask
  | sendFramed body next ih =>
    rw [Async.closedRest]
    rw [Async.meets] at hmeets
    cases hframe : withProtodelim engine body with
    | error err =>
      rw [hframe] at hmeets
      exact hmeets
    | ok frame =>
      rw [hframe] at hmeets
      exact hmeets.2.2 hdone reason
  | readFramed next ih =>
    rw [Async.closedRest] at htask ⊢
    rw [Async.meets] at hmeets
    cases hnext : (protodelim engine).next (peer.toRead sent consumed) with
    | none =>
      rw [hnext] at hmeets
      dsimp only at hmeets
      rw [Peer.leaves, hdone, Bool.and_true, if_pos rfl] at hmeets
      exact hmeets reason
    | some found =>
      obtain ⟨body, rest⟩ := found
      have hsuffix : rest <:+ (peer.answer sent).written :=
        (suffix_of_next hnext).trans (List.drop_suffix _ _)
      rw [hnext] at hmeets htask
      dsimp only at hmeets htask ⊢
      have hrest : rest = peer.toRead sent ((peer.answer sent).written.length - rest.length) :=
        List.suffix_iff_eq_drop.mp hsuffix
      have hafter := @ih body _ tasks hmeets
      rw [← hrest] at hafter
      exact hafter htask
  | readAck reader result =>
    rw [Async.meets] at hmeets
    cases hinput : peer.toRead sent consumed with
    | nil =>
      rw [hinput] at hmeets
      dsimp only at hmeets
      rw [Peer.leaves, hdone, Bool.true_and] at hmeets
      rw [Async.closedRest]
      split_ifs at hmeets ⊢
      · exact hmeets reason
      · exact hmeets
    | cons ack others =>
      rw [hinput] at hmeets
      rw [Async.closedRest]
      dsimp only at hmeets ⊢
      split_ifs at hmeets ⊢ <;> exact hmeets

/-- Whether the end of the stream gives the function its outcome. -/
def Rest.hears : Rest Result → Bool
  | frame _ => true
  | ack reader _ => reader.watchesClose
  | _ => false

section Waiting

variable {running : Running Result} {future : ℕ → Bytes → Position Result} {received : Bytes} {consumed : ℕ}

/-- A function that has been given all that the server wrote and waits. -/
theorem Stands.leaves (hstands : Stands engine running future)
    (hheard : Heard engine peer post (future 0 []) received consumed)
    (hall : received = (peer.answer (sentBytes running.stream.sent)).written)
    (htask : running.awaiting.isTask = false) :
    peer.leaves post (sentBytes running.stream.sent) running.awaiting.rest running.awaiting.rest.hears := by
  obtain ⟨hsent, hrest, hunread⟩ := hstands.position_eq
  have hmeets := hheard.meets
  have htoRead : peer.toRead (sentBytes running.stream.sent) consumed = (future 0 []).unread := by
    rw [hheard.unread_eq, hall, Peer.toRead]
  rw [hsent, hrest] at hmeets
  cases hstands with
  | task hidle hfuture => cases htask
  | frame hreading hfuture =>
    have hnone := next_of_readProtodelim_none engine hreading.cut
    dsimp only [Awaiting.rest, Rest.meets] at hmeets
    rw [Async.meets, htoRead, hunread rfl, hnone] at hmeets
    exact hmeets
  | ack hacking hclosing hfuture =>
    dsimp only [Awaiting.rest, Rest.meets] at hmeets
    rw [Async.meets, htoRead, hunread rfl, hacking.nothing_unread] at hmeets
    exact hmeets
  | settled hfuture =>
    dsimp only [Awaiting.rest, Rest.hears]
    rw [Peer.leaves, Bool.and_false, if_neg Bool.false_ne_true]
    exact hmeets

/-- What is left on a closed stream is an error for whoever reads or watches. -/
theorem Position.closedRest_eq {position : Position Result} (htask : position.rest.isTask = false)
    (reason : StreamError) (tasks : ℕ) :
    position.closedRest engine reason tasks =
      if position.rest.hears then .settled (.error (.stream reason)) else position.rest := by
  rw [Position.closedRest]
  cases hrest : position.rest with
  | task next =>
    rw [hrest] at htask
    cases htask
  | frame | ack | settled => rfl

theorem Rest.isTask_rest (awaiting : Awaiting Result) : awaiting.rest.isTask = awaiting.isTask := by
  cases awaiting <;> rfl

/-- A server that is done and closes leaves the client as promised. -/
theorem Stands.post_closedRest (hstands : Stands engine running future)
    (hheard : Heard engine peer post (future 0 []) received consumed)
    (hall : received = (peer.answer (sentBytes running.stream.sent)).written)
    (hdone : peer.done (sentBytes running.stream.sent) = true) {reason : StreamError} {tasks : ℕ}
    (hrested : ((future 0 []).closedRest engine reason tasks).isTask = false) :
    post (sentBytes running.stream.sent) ((future 0 []).closedRest engine reason tasks) := by
  obtain ⟨hsent, hrest, -⟩ := hstands.position_eq
  cases htask : running.awaiting.isTask with
  | false =>
    have hleaves := hstands.leaves hheard hall htask
    have hnone : (future 0 []).rest.isTask = false := by rw [hrest, Rest.isTask_rest, htask]
    rw [Position.closedRest_eq hnone, hrest]
    rw [Peer.leaves, hdone, Bool.true_and] at hleaves
    split_ifs at hleaves ⊢
    · exact hleaves reason
    · exact hleaves
  | true =>
    obtain ⟨next, hnext⟩ : ∃ next, (future 0 []).rest = .task next := by
      rw [hrest]
      cases hawaiting : running.awaiting with
      | task next => exact ⟨next, rfl⟩
      | frame | ack | settled =>
        rw [hawaiting] at htask
        cases htask
    have hmeets := hheard.meets
    have hunread : (future 0 []).unread = peer.toRead (sentBytes running.stream.sent) consumed := by
      rw [hheard.unread_eq, hall, Peer.toRead]
    rw [hsent, hnext] at hmeets
    rw [Position.closedRest, hnext, hunread] at hrested ⊢
    exact Typescript.post_closedRest hmeets hdone hrested

end Waiting

/-! ## The exchange -/

structure Exchange (Result : Type) where
  running : Running Result
  /-- What has arrived of what the server wrote. -/
  received : Bytes
  /-- The server has closed the stream, and the client has heard of it. -/
  ended : Bool

namespace Exchange

def sent (exchange : Exchange Result) : Bytes := sentBytes exchange.running.stream.sent

def rest (exchange : Exchange Result) : Rest Result := exchange.running.awaiting.rest

def answer (peer : Peer) (exchange : Exchange Result) : Answer := peer.answer exchange.sent

/-- More of what the server wrote arrives, the end of the stream behind all of it, or a task ends. -/
def allowed (peer : Peer) (exchange : Exchange Result) : ClientEvent → Prop
  | .message (.arrayBuffer chunk) =>
    exchange.ended = false ∧ chunk ≠ [] ∧ exchange.received ++ chunk <+: (exchange.answer peer).written
  | .closed _ _ =>
    exchange.ended = false ∧ (exchange.answer peer).status ≠ .waiting ∧
      exchange.received = (exchange.answer peer).written
  | .task => exchange.running.awaiting.isTask = true
  | _ => False

def step (engine : Engine) (exchange : Exchange Result) (event : ClientEvent) : Exchange Result :=
  ⟨exchange.running.step engine event, exchange.received ++ event.chunk,
    exchange.ended || event.closeReason.isSome⟩

theorem step_task (engine : Engine) (exchange : Exchange Result) :
    exchange.step engine .task =
      ⟨exchange.running.step engine .task, exchange.received, exchange.ended⟩ := by
  simp [step, ClientEvent.chunk, ClientEvent.closeReason]

theorem step_closed (engine : Engine) (exchange : Exchange Result) (code : ℕ) (reason : String) :
    exchange.step engine (.closed code reason) =
      ⟨exchange.running.step engine (.closed code reason), exchange.received, true⟩ := by
  rw [step, ClientEvent.closeReason]
  split_ifs <;> simp [ClientEvent.chunk]

end Exchange

def exchangeMachine (engine : Engine) (peer : Peer) (program : Async Result) :
    Machine (Exchange Result) ClientEvent where
  init := ⟨program.proceed engine newStream, [], false⟩
  allowed := Exchange.allowed peer
  step := Exchange.step engine

instance (engine : Engine) (peer : Peer) (program : Async Result) (exchange : Exchange Result)
    (event : ClientEvent) : Decidable ((exchangeMachine engine peer program).allowed exchange event) := by
  rcases event with ⟨_ | _⟩ | _ | _ | _ <;> dsimp only [exchangeMachine, Exchange.allowed] <;> infer_instance

section Runs

variable (engine peer post)

/-- What holds between two events of an exchange. -/
inductive Spoken : Exchange Result → Prop
  | opened {running : Running Result} {received : Bytes} {future : ℕ → Bytes → Position Result}
      {consumed : ℕ} (hstands : Stands engine running future)
      (hheard : Heard engine peer post (future 0 []) received consumed) :
      Spoken ⟨running, received, false⟩
  | ended {running : Running Result} {received : Bytes} {future : ℕ → Rest Result} {reason : StreamError}
      {sent : List Outgoing} (hstands : StandsClosed engine reason sent running future)
      (harrived : received = (peer.answer (sentBytes sent)).written)
      (hpost : ∀ tasks, (future tasks).isTask = false → post (sentBytes sent) (future tasks)) :
      Spoken ⟨running, received, true⟩

end Runs

theorem spoken_init (hmeets : program.meets engine peer post [] 0)
    (hfits : (peer.answer []).written.length ≤ engine.maxLength) :
    Spoken engine peer post (exchangeMachine engine peer program).init := by
  have hstands : Stands engine (program.proceed engine newStream) fun tasks input ↦
      (program.sequential engine tasks (newStream.buffer ++ input)).behind newStream.sent :=
    proceed_stands idle_newStream program
  have hheard : ∃ consumed, Heard engine peer post
      ((program.sequential engine 0 (([] : Bytes).drop 0)).behind []) [] consumed :=
    heard_sequential hmeets (Nat.zero_le _) List.nil_prefix hfits 0
  obtain ⟨consumed, hheard⟩ := hheard
  exact .opened hstands hheard

section Steps

variable {running : Running Result} {received : Bytes} {future : ℕ → Bytes → Position Result} {consumed : ℕ}
  (hstands : Stands engine running future) (hheard : Heard engine peer post (future 0 []) received consumed)
include hstands hheard

/-- A part of the answer that arrives keeps the conversation on its way. -/
theorem spoken_binary {chunk : Bytes} (hchunk : chunk ≠ [])
    (harrives : received ++ chunk <+: (peer.answer (sentBytes running.stream.sent)).written) :
    Spoken engine peer post ⟨running.step engine (.binary chunk), received ++ chunk, false⟩ := by
  obtain ⟨hsent, -, hunread⟩ := hstands.position_eq
  rw [← hsent] at harrives
  have hfits : running.awaiting.isSettled = false →
      running.stream.buffer.length + chunk.length ≤ engine.maxLength := by
    intro hsettled
    have hlength := harrives.length_le.trans hheard.fits
    rw [← hunread hsettled, hheard.unread_eq, List.length_drop]
    rw [List.length_append] at hlength
    omega
  obtain ⟨consumed, hheard⟩ := hheard.resume harrives 0
  have hafter : future 0 (chunk ++ []) = (future 0 []).resume engine 0 chunk := by
    rw [List.append_nil]
    exact hstands.future_eq 0 chunk
  rw [← hafter] at hheard
  exact .opened (hstands.binary hchunk hfits) hheard

/-- The end of a task keeps the conversation on its way. -/
theorem spoken_task (htask : running.awaiting.isTask = true) :
    Spoken engine peer post ⟨running.step engine .task, received, false⟩ := by
  have harrives := hheard.arrives
  rw [← List.append_nil received] at harrives
  obtain ⟨consumed, hheard⟩ := hheard.resume harrives 1
  rw [List.append_nil, ← hstands.future_eq 1 []] at hheard
  exact .opened (hstands.task_step htask) hheard

/-- A close after the whole answer ends the conversation as promised. -/
theorem spoken_closed {event : ClientEvent} {reason : StreamError} (hreason : event.closeReason = some reason)
    (hdone : peer.done (sentBytes running.stream.sent) = true)
    (hall : received = (peer.answer (sentBytes running.stream.sent)).written) :
    Spoken engine peer post ⟨running.step engine event, received, true⟩ := by
  rw [step_of_closeReason hreason]
  exact .ended (hstands.fail reason) hall fun tasks ↦ hstands.post_closedRest hheard hall hdone

end Steps

/-- No event that the exchange allows takes the conversation off its way. -/
theorem Spoken.step {exchange : Exchange Result} (hspoken : Spoken engine peer post exchange)
    {event : ClientEvent} (hallowed : exchange.allowed peer event) :
    Spoken engine peer post (exchange.step engine event) := by
  cases hspoken with
  | opened hstands hheard =>
    cases event with
    | message data =>
      cases data with
      | text text => exact absurd hallowed not_false
      | arrayBuffer chunk => exact spoken_binary hstands hheard hallowed.2.1 hallowed.2.2
    | error => exact absurd hallowed not_false
    | closed code reason =>
      obtain ⟨err, herr⟩ : ∃ err, (ClientEvent.closed code reason).closeReason = some err := by
        rw [ClientEvent.closeReason]
        split_ifs
        · exact ⟨_, rfl⟩
        · exact ⟨_, rfl⟩
      rw [Exchange.step_closed]
      exact spoken_closed hstands hheard herr (decide_eq_true hallowed.2.1) hallowed.2.2
    | task =>
      rw [Exchange.step_task]
      exact spoken_task hstands hheard hallowed
  | ended hstands harrived hpost =>
    cases event with
    | message data =>
      cases data with
      | text text => exact absurd hallowed not_false
      | arrayBuffer chunk => cases hallowed.1
    | error => exact absurd hallowed not_false
    | closed code reason => cases hallowed.1
    | task =>
      rw [Exchange.step_task]
      exact .ended (hstands.task_step hallowed) harrived fun tasks ↦ hpost (tasks + 1)

/-- Nothing more can happen. -/
def Exchange.Quiet (peer : Peer) (exchange : Exchange Result) : Prop :=
  ∀ event, ¬exchange.allowed peer event

theorem Exchange.quiet_of_ended {exchange : Exchange Result} (hended : exchange.ended = true)
    (htask : exchange.running.awaiting.isTask = false) : exchange.Quiet peer := by
  intro event hallowed
  cases event with
  | message data =>
    cases data with
    | arrayBuffer chunk => exact absurd (hended.symm.trans hallowed.1) (by decide)
    | text value => exact hallowed
  | error => exact hallowed
  | closed code reason => exact absurd (hended.symm.trans hallowed.1) (by decide)
  | task => exact absurd (htask.symm.trans hallowed) (by decide)

section Ends

variable {exchange : Exchange Result} (hspoken : Spoken engine peer post exchange)
include hspoken

/-- What has arrived is the beginning of what the server answers. -/
theorem Spoken.arrived : exchange.received <+: (exchange.answer peer).written := by
  cases hspoken with
  | opened hstands hheard =>
    have harrives := hheard.arrives
    rwa [hstands.position_eq.1] at harrives
  | ended hstands harrived hpost =>
    rw [harrived, Exchange.answer, Exchange.sent, hstands.rest_eq.2.1]

/-- An outcome is one that the postcondition allows, whatever is still under way. -/
theorem Spoken.settled {outcome : Except ClientError Result} (hsettled : exchange.rest = .settled outcome) :
    post exchange.sent (.settled outcome) := by
  cases hspoken with
  | opened hstands hheard =>
    obtain ⟨hsent, hrest, -⟩ := hstands.position_eq
    have hmeets := hheard.meets
    rw [hsent, hrest] at hmeets
    rw [Exchange.rest] at hsettled
    rwa [hsettled] at hmeets
  | ended hstands harrived hpost =>
    obtain ⟨-, hsent, hrest⟩ := hstands.rest_eq
    have hnow := hpost 0
    rw [← hrest, ← hsent] at hnow
    rw [Exchange.rest] at hsettled
    rw [hsettled] at hnow
    exact hnow rfl

/-- When nothing is left to happen, the conversation has ended as promised. -/
theorem Spoken.quiet (hquiet : exchange.Quiet peer) : post exchange.sent exchange.rest := by
  have htask : exchange.running.awaiting.isTask = false := Bool.eq_false_iff.mpr (hquiet .task)
  have harrived := hspoken.arrived
  cases hspoken with
  | @opened running received future consumed hstands hheard =>
    obtain ⟨more, hmore⟩ := harrived
    have hnothing : more = [] := by
      by_contra hsome
      exact hquiet (.binary more) ⟨rfl, hsome, hmore ▸ List.prefix_rfl⟩
    rw [hnothing, List.append_nil] at hmore
    have hdone : peer.done (sentBytes running.stream.sent) = false := by
      rw [Peer.done, decide_eq_false_iff_not]
      exact fun hdone ↦ hquiet (.closed 1000 "") ⟨rfl, hdone, hmore⟩
    have hleaves := hstands.leaves hheard hmore htask
    rw [Peer.leaves, hdone, Bool.false_and, if_neg Bool.false_ne_true] at hleaves
    exact hleaves
  | ended hstands harrived hpost =>
    obtain ⟨-, hsent, hrest⟩ := hstands.rest_eq
    have hnow := hpost 0
    rw [← hrest, ← hsent, Rest.isTask_rest] at hnow
    exact hnow htask

end Ends

/-- At most this many tasks are waited for. -/
def Async.waitsAtMost : Async Result → ℕ → Prop
  | throws _, _ => True
  | later _, 0 => False
  | later next, limit + 1 => next.waitsAtMost limit
  | sendFramed _ next, limit => next.waitsAtMost limit
  | readFramed next, limit => ∀ body, (next body).waitsAtMost limit
  | readAck _ _, _ => True

def Awaiting.waitsAtMost : Awaiting Result → ℕ → Prop
  | task next, limit => (Async.later next).waitsAtMost limit
  | frame _ next, limit => (Async.readFramed next).waitsAtMost limit
  | _, _ => True

section Tasks

variable {limit : ℕ} {program : Async Result}

theorem waitsAtMost_succ (hprogram : program.waitsAtMost limit) : program.waitsAtMost (limit + 1) := by
  induction program generalizing limit with
  | throws err => trivial
  | later next ih =>
    cases limit with
    | zero => exact absurd hprogram not_false
    | succ limit => exact ih hprogram
  | sendFramed body next ih => exact ih hprogram
  | readFramed next ih => exact fun body ↦ ih body (hprogram body)
  | readAck reader result => trivial

theorem waitsAtMost_attempt {Value : Type} {value : Except ClientError Value} {next : Value → Async Result}
    (hnext : ∀ value, (next value).waitsAtMost limit) : (Async.attempt value next).waitsAtMost limit := by
  cases value with
  | error err => trivial
  | ok value => exact hnext value

theorem waitsAtMost_awaitAck (stream : Stream) (reader : AckReader) (closing : ℕ) (result : Result) :
    (Running.awaitAck stream reader closing result).awaiting.waitsAtMost limit := by
  rw [Running.awaitAck]
  split
  · next chunk _ =>
    cases chunk with
    | nil => trivial
    | cons ack rest =>
      rw [AckReader.receive]
      split_ifs <;> trivial
  · split <;> trivial

/-- Running up to the next wait does not add tasks. -/
theorem waitsAtMost_proceed (hprogram : program.waitsAtMost limit) (stream : Stream) :
    (program.proceed engine stream).awaiting.waitsAtMost limit := by
  induction program generalizing stream with
  | throws err => trivial
  | later next ih => exact hprogram
  | sendFramed body next ih =>
    rw [Async.proceed]
    split
    · trivial
    · exact ih hprogram _
  | readFramed next ih =>
    rw [Async.proceed]
    split
    · exact ih _ (hprogram _) _
    · trivial
    · exact hprogram
  | readAck reader result => exact waitsAtMost_awaitAck ..

theorem waitsAtMost_resume {awaiting : Awaiting Result} (hawaiting : awaiting.waitsAtMost limit)
    (stream : Stream) : (Running.resume engine stream awaiting).awaiting.waitsAtMost limit := by
  cases awaiting with
  | task next => exact hawaiting
  | frame read next =>
    rw [Running.resume]
    split
    · exact waitsAtMost_proceed (hawaiting _) _
    · trivial
    · exact hawaiting
  | ack reader closing result => exact waitsAtMost_awaitAck ..
  | settled outcome => trivial

/-- No more tasks end than the function waits for. -/
theorem tasksEnded_le {exchange : Exchange Result}
    (hlimit : exchange.running.awaiting.waitsAtMost limit) {events : List ClientEvent}
    (hlegal : (exchangeMachine engine peer program).Legal exchange events) :
    tasksEnded events ≤ limit := by
  induction events generalizing exchange limit with
  | nil => exact Nat.zero_le _
  | cons event events ih =>
    obtain ⟨hallowed, hlegal⟩ := hlegal
    cases event with
    | message | error | closed => exact ih (waitsAtMost_resume hlimit _) hlegal
    | task =>
      have htask : exchange.running.awaiting.isTask = true := hallowed
      obtain ⟨⟨stream, awaiting⟩, received, ended⟩ := exchange
      cases awaiting with
      | task next =>
        cases limit with
        | zero => exact absurd hlimit not_false
        | succ limit =>
          have hnext : next.waitsAtMost limit := hlimit
          have hrest := ih (waitsAtMost_proceed hnext stream) hlegal
          rw [tasksEnded, List.count_cons_self]
          exact Nat.succ_le_succ hrest
      | frame | ack | settled => cases htask

end Tasks

/-- Every event ends a task, brings something or is the end of the stream. -/
theorem progress_step (engine : Engine) {exchange : Exchange Result} {event : ClientEvent}
    (hallowed : exchange.allowed peer event) :
    exchange.received.length + exchange.ended.toNat + 1 ≤
      tasksEnded [event] + (exchange.step engine event).received.length +
        (exchange.step engine event).ended.toNat := by
  cases event with
  | message data =>
    cases data with
    | text text => exact absurd hallowed not_false
    | arrayBuffer chunk =>
      have hchunk : 0 < chunk.length := List.length_pos_iff.mpr hallowed.2.1
      simp only [Exchange.step, ClientEvent.closeReason, ClientEvent.chunk, Option.isSome_none, Bool.or_false,
        List.length_append]
      omega
  | error => exact absurd hallowed not_false
  | closed code reason =>
    have hended : exchange.ended = false := hallowed.1
    rw [Exchange.step_closed, hended, Bool.toNat_false, Bool.toNat_true]
    dsimp only
    omega
  | task =>
    rw [Exchange.step_task, tasksEnded, List.count_singleton_self]
    dsimp only
    omega

/-- Every event of a run brings bytes, ends a task or ends the stream. -/
theorem progress_run {exchange : Exchange Result} {events : List ClientEvent}
    (hlegal : (exchangeMachine engine peer program).Legal exchange events) :
    exchange.received.length + exchange.ended.toNat + events.length ≤
      tasksEnded events + ((exchangeMachine engine peer program).run exchange events).received.length +
        ((exchangeMachine engine peer program).run exchange events).ended.toNat := by
  induction events generalizing exchange with
  | nil => simp [tasksEnded]
  | cons event events ih =>
    have hfirst := progress_step engine hlegal.1
    have hrest := ih hlegal.2
    have htasks : tasksEnded ([event] ++ events) = tasksEnded [event] + tasksEnded events :=
      List.count_append
    rw [List.singleton_append] at htasks
    rw [Machine.run_cons, htasks, List.length_cons]
    change (exchange.step engine event).received.length + (exchange.step engine event).ended.toNat + _ ≤ _
      at hrest
    omega

/-- An exchange comes to its end, and it ends as it does when every call blocks. -/
theorem exchange_ends {limit : ℕ} (hmeets : program.meets engine peer post [] 0)
    (hfits : (peer.answer []).written.length ≤ engine.maxLength) (hlimit : program.waitsAtMost limit)
    {events : List ClientEvent}
    (hlegal : (exchangeMachine engine peer program).Legal (exchangeMachine engine peer program).init events) :
    let exchange := (exchangeMachine engine peer program).run (exchangeMachine engine peer program).init events
    events.length ≤ limit + (exchange.answer peer).written.length + 1 ∧
      (∀ outcome, exchange.rest = .settled outcome → post exchange.sent (.settled outcome)) ∧
      (exchange.Quiet peer → post exchange.sent exchange.rest) := by
  intro exchange
  have hspoken : Spoken engine peer post exchange :=
    (Machine.Reachable.init.run hlegal).invariant (spoken_init hmeets hfits)
      fun _ _ _ hbefore hallowed ↦ hbefore.step hallowed
  refine ⟨?_, fun outcome ↦ hspoken.settled, hspoken.quiet⟩
  have hlength := progress_run hlegal
  have htasks := tasksEnded_le (waitsAtMost_proceed hlimit newStream) hlegal
  have harrived := hspoken.arrived.length_le
  have hended := Bool.toNat_le exchange.ended
  change 0 + 0 + events.length ≤ _ + exchange.received.length + exchange.ended.toNat at hlength
  omega

/-! ## Following a function along its calls -/

section Rules

variable {body sent : Bytes} {consumed : ℕ}

/-- Client and server put the same length in front. -/
theorem frame_eq_framed (engine : Engine) (body : Bytes) : (protodelim engine).frame body = framed body := by
  rw [framed, ← encodeVarint_eq_encode]
  rfl

theorem withProtodelim_framed (hfits : (framed body).length ≤ engine.maxLength) :
    withProtodelim engine body = .ok (framed body) := by
  rw [← frame_eq_framed engine] at hfits ⊢
  exact withProtodelim_eq_ok hfits

/-- The client reads back a message that the server framed. -/
theorem next_framed {rest : Bytes} (hfits : (framed body ++ rest).length ≤ engine.maxLength) :
    (protodelim engine).next (framed body ++ rest) = some (body, rest) := by
  rw [← frame_eq_framed engine] at hfits ⊢
  exact (protodelim engine).next_frame hfits

theorem meets_sendFramed {next : Async Result} (hfits : (framed body).length ≤ engine.maxLength)
    (hanswer : (peer.answer (sent ++ framed body)).written.length ≤ engine.maxLength)
    (hdone : peer.done sent = true → ∀ reason, post sent (.settled (.error (.stream reason))))
    (hnext : next.meets engine peer post (sent ++ framed body) consumed) :
    (Async.sendFramed body next).meets engine peer post sent consumed := by
  rw [Async.meets, withProtodelim_framed hfits]
  exact ⟨hnext, hanswer, hdone⟩

theorem meets_readFramed {next : Bytes → Async Result} {before rest : Bytes}
    (hwritten : (peer.answer sent).written = before ++ (framed body ++ rest))
    (hfits : (peer.answer sent).written.length ≤ engine.maxLength)
    (hnext : (next body).meets engine peer post sent (before ++ framed body).length) :
    (Async.readFramed next).meets engine peer post sent before.length := by
  have htoRead : peer.toRead sent before.length = framed body ++ rest := by
    rw [Peer.toRead, hwritten, List.drop_left]
  have hconsumed : (peer.answer sent).written.length - rest.length = (before ++ framed body).length := by
    rw [hwritten, ← List.append_assoc, List.length_append, Nat.add_sub_cancel]
  rw [hwritten, List.length_append] at hfits
  rw [Async.meets, htoRead, next_framed ((Nat.le_add_left _ _).trans hfits)]
  dsimp only
  rwa [hconsumed]

/-- The server has closed the stream, and there is nothing to read. -/
theorem meets_readFramed_done {next : Bytes → Async Result} (hread : peer.toRead sent consumed = [])
    (hdone : peer.done sent = true) (hpost : ∀ reason, post sent (.settled (.error (.stream reason)))) :
    (Async.readFramed next).meets engine peer post sent consumed := by
  have hnone : (protodelim engine).next [] = none := rfl
  rw [Async.meets, hread, hnone]
  dsimp only
  rwa [Peer.leaves, hdone, Bool.and_true, if_pos rfl]

theorem meets_readAck {reader : AckReader} {result : Result} {rest : Bytes}
    (hread : peer.toRead sent consumed = AckOK :: rest) (hpost : post sent (.settled (.ok result))) :
    (Async.readAck reader result).meets engine peer post sent consumed := by
  rw [Async.meets, hread]
  dsimp only
  rwa [if_pos rfl]

theorem meets_readAck_done {reader : AckReader} {result : Result} (hread : peer.toRead sent consumed = [])
    (hdone : peer.done sent = true)
    (hpost : if reader.watchesClose then ∀ reason, post sent (.settled (.error (.stream reason)))
      else post sent (.ack reader result)) :
    (Async.readAck reader result).meets engine peer post sent consumed := by
  rw [Async.meets, hread]
  dsimp only
  rwa [Peer.leaves, hdone, Bool.true_and]

/-- The engine has room for two messages within the server's limit and an acknowledgement. -/
def HasRoom (engine : Engine) : Prop := 2 * (maxMessageSize + 5) ≤ engine.maxLength

theorem hasRoom_exampleEngine : HasRoom exampleEngine := by
  unfold HasRoom
  decide +kernel

theorem maxMessageSize_le (hroom : HasRoom engine) : maxMessageSize ≤ engine.maxLength := by
  unfold HasRoom at hroom
  omega

theorem length_framed_lt (hroom : HasRoom engine) (hbody : body.length ≤ maxMessageSize) :
    (framed body).length < engine.maxLength := by
  have hframe := length_framed_le hbody
  unfold HasRoom at hroom
  omega

section Hello

variable {hello : Bytes} (hroom : HasRoom engine) (hhello : hello.length ≤ maxMessageSize)
  (hstart : peer.done [] = false)
include hroom hhello hstart

theorem meets_hello {next : Bytes → Async Result} (hbody : body.length ≤ maxMessageSize)
    (hanswer : (peer.answer (framed hello)).written = framed body)
    (hnext : (next body).meets engine peer post (framed hello) (framed body).length) :
    (Async.sendFramed hello (.readFramed next)).meets engine peer post [] 0 := by
  have hfits : (peer.answer ([] ++ framed hello)).written.length ≤ engine.maxLength := by
    rw [List.nil_append, hanswer]
    exact (length_framed_lt hroom hbody).le
  have hwritten : (peer.answer ([] ++ framed hello)).written = [] ++ (framed body ++ []) := by
    rw [List.nil_append, hanswer, List.append_nil, List.nil_append]
  exact meets_sendFramed (length_framed_lt hroom hhello).le hfits
    (fun hdone ↦ absurd (hstart.symm.trans hdone) Bool.false_ne_true) (meets_readFramed hwritten hfits hnext)

theorem meets_hello_refused {next : Bytes → Async Result}
    (hanswer : (peer.answer (framed hello)).written = []) (hdone : peer.done (framed hello) = true)
    (hpost : ∀ reason, post (framed hello) (.settled (.error (.stream reason)))) :
    (Async.sendFramed hello (.readFramed next)).meets engine peer post [] 0 := by
  have hfits : (peer.answer ([] ++ framed hello)).written.length ≤ engine.maxLength := by
    rw [List.nil_append, hanswer]
    exact Nat.zero_le _
  refine meets_sendFramed (length_framed_lt hroom hhello).le hfits
    (fun hdone ↦ absurd (hstart.symm.trans hdone) Bool.false_ne_true) (meets_readFramed_done ?_ hdone hpost)
  rw [Peer.toRead, List.nil_append, hanswer, List.drop_nil]

end Hello

section Proof

variable {proof before : Bytes} {reader : AckReader} {result : Result} (hroom : HasRoom engine)
  (hproof : proof.length ≤ maxMessageSize) (hbefore : before.length < engine.maxLength)
  (hwaiting : peer.done sent = false)
include hroom hproof hbefore hwaiting

theorem meets_proof (hanswer : (peer.answer (sent ++ framed proof)).written = before ++ [ackOK])
    (hpost : post (sent ++ framed proof) (.settled (.ok result))) :
    (Async.sendFramed proof (.readAck reader result)).meets engine peer post sent before.length := by
  have hread : peer.toRead (sent ++ framed proof) before.length = [AckOK] := by
    rw [Peer.toRead, hanswer, List.drop_left]
    rfl
  refine meets_sendFramed (length_framed_lt hroom hproof).le ?_
    (fun hdone ↦ absurd (hwaiting.symm.trans hdone) Bool.false_ne_true) (meets_readAck hread hpost)
  rw [hanswer, List.length_append, List.length_singleton]
  exact hbefore

theorem meets_proof_refused (hanswer : (peer.answer (sent ++ framed proof)).written = before)
    (hdone : peer.done (sent ++ framed proof) = true)
    (hpost : if reader.watchesClose
      then ∀ reason, post (sent ++ framed proof) (.settled (.error (.stream reason)))
      else post (sent ++ framed proof) (.ack reader result)) :
    (Async.sendFramed proof (.readAck reader result)).meets engine peer post sent before.length := by
  refine meets_sendFramed (length_framed_lt hroom hproof).le ?_
    (fun hdone ↦ absurd (hwaiting.symm.trans hdone) Bool.false_ne_true) (meets_readAck_done ?_ hdone hpost)
  · rw [hanswer]
    exact hbefore.le
  · rw [Peer.toRead, hanswer, List.drop_length]

end Proof

end Rules

end Mosey.Typescript
