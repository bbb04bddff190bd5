import Mosey.Typescript.Async

/-!
# Functions whose stream closes

When the stream closes, what has arrived can still be read and nothing can be sent. A function that waits
for a frame is rejected, and so is one that waits for the acknowledgement if it watches; if it does not,
it waits for ever.
-/

namespace Mosey.Typescript

open Library

variable {Result : Type}

/-- The function when its stream has closed, after a number of tasks and with what is left to read. -/
def Async.closedRest (engine : Engine) (reason : StreamError) : Async Result → ℕ → Bytes → Rest Result
  | throws err, _, _ => .settled (.error err)
  | later next, 0, _ => .task next
  | later next, tasks + 1, input => next.closedRest engine reason tasks input
  | sendFramed body _, _, _ =>
    match withProtodelim engine body with
    | .error err => .settled (.error (.stream (.range err)))
    | .ok _ => .settled (.error (.stream reason))
  | readFramed next, tasks, input =>
    match (protodelim engine).next input with
    | some (body, rest) => (next body).closedRest engine reason tasks rest
    | none => .settled (.error (.stream reason))
  | readAck reader result, _, input =>
    match input with
    | [] => if reader.watchesClose then .settled (.error (.stream reason)) else .ack reader result
    | ack :: _ =>
      if ack = AckOK then .settled (.ok result) else .settled (.error (reader.unexpectedAck ack))

/-- The same from where the function stood when the stream closed. -/
def Position.closedRest (engine : Engine) (reason : StreamError) (position : Position Result) (tasks : ℕ) :
    Rest Result :=
  match position.rest with
  | .task next => (Async.later next).closedRest engine reason tasks position.unread
  | .frame _ => .settled (.error (.stream reason))
  | .ack reader result =>
    if reader.watchesClose then .settled (.error (.stream reason)) else .ack reader result
  | .settled outcome => .settled outcome

/-- A stream that has closed while the function did not read. -/
structure Stream.Ended (stream : Stream) (reason : StreamError) : Prop where
  closed : stream.closed = true
  closeError : stream.closeError = some reason
  none_delivered : stream.delivered = []

/-- What is left to do when the stream has closed. Nothing more is sent. -/
inductive StandsClosed (engine : Engine) (reason : StreamError) (sent : List Outgoing) :
    Running Result → (ℕ → Rest Result) → Prop
  | task {stream : Stream} {next : Async Result} {future : ℕ → Rest Result} (hended : stream.Ended reason)
      (hsent : stream.sent = sent)
      (hfuture : ∀ tasks, future tasks =
        (Async.later next).closedRest engine reason tasks stream.buffer) :
      StandsClosed engine reason sent ⟨stream, .task next⟩ future
  | settled {stream : Stream} {awaiting : Awaiting Result} {future : ℕ → Rest Result}
      (hclosed : stream.closed = true) (hsent : stream.sent = sent) (htask : awaiting.isTask = false)
      (hfuture : ∀ tasks, future tasks = awaiting.rest) :
      StandsClosed engine reason sent ⟨stream, awaiting⟩ future

variable {engine : Engine} {reason : StreamError} {sent : List Outgoing} {running : Running Result}

variable {stream : Stream} {closing : ℕ} {future : ℕ → Rest Result} {program : Async Result}

/-- The acknowledgement settles the function on a closed stream as well. -/
theorem receive_closed (hclosed : stream.closed = true) (reader : AckReader) (result : Result)
    (ack : UInt8) (rest : Bytes) :
    StandsClosed engine reason stream.sent (reader.receive stream result (ack :: rest)) fun tasks ↦
      (Async.readAck reader result).closedRest engine reason tasks (ack :: rest) := by
  have hclose : stream.close = stream := if_pos hclosed
  rw [AckReader.receive]
  split_ifs with hack
  · rw [hclose]
    refine .settled hclosed rfl rfl fun tasks ↦ ?_
    simp [Async.closedRest, hack, Awaiting.rest]
  · refine .settled hclosed rfl rfl fun tasks ↦ ?_
    simp [Async.closedRest, hack, Awaiting.rest]

theorem closed_install_of_closed (hclosed : stream.closed = true) (reader : AckReader) :
    (reader.install stream).closed = true ∧ (reader.install stream).sent = stream.sent := by
  cases hwatches : reader.watchesClose <;>
    simp [AckReader.install, hwatches, onData_eq, Stream.whenClosed, hclosed]

/-- On a stream that has ended, the promise of a new watcher is resolved at once. -/
theorem closings_install (hended : stream.Ended reason) {reader : AckReader}
    (hwatches : reader.watchesClose = true) :
    (reader.install stream).closings[stream.closings.length]? = some (.resolved reason) := by
  simp [AckReader.install, hwatches, onData_eq, Stream.whenClosed, hended.closed, Stream.closeReason,
    hended.closeError]

/-- A function that goes on behind the end of its stream. -/
theorem proceed_closed (hended : stream.Ended reason) (program : Async Result) :
    StandsClosed engine reason stream.sent (program.proceed engine stream) fun tasks ↦
      program.closedRest engine reason tasks stream.buffer := by
  have hclosed := hended.closed
  induction program generalizing stream with
  | throws err => exact .settled hclosed rfl rfl fun tasks ↦ rfl
  | later next => exact .task hended rfl fun tasks ↦ rfl
  | sendFramed body next ih =>
    rw [Async.proceed]
    cases hframe : withProtodelim engine body with
    | error err =>
      simp only [Stream.sendFramed, hframe, Stream.throws, List.getElem?_concat_length]
      refine .settled hclosed rfl rfl fun tasks ↦ ?_
      simp [Async.closedRest, hframe, Awaiting.rest]
    | ok frame =>
      have hthrows : stream.sendFramed engine body = stream.throws stream.closeReason := by
        rw [Stream.sendFramed, hframe]
        exact if_pos hclosed
      rw [hthrows]
      simp only [Stream.throws, List.getElem?_concat_length]
      refine .settled hclosed rfl rfl fun tasks ↦ ?_
      simp [Async.closedRest, hframe, Awaiting.rest, Stream.closeReason, hended.closeError]
  | readFramed next ih =>
    rw [Async.proceed]
    cases hnext : (protodelim engine).next stream.buffer with
    | some found =>
      obtain ⟨body, rest⟩ := found
      rw [Stream.readFramed_of_some hnext]
      simp only [List.getElem?_concat_length]
      have hafter : ({ stream with buffer := rest, reads := stream.reads ++ [.resolved body] } :
          Stream).Ended reason :=
        ⟨hended.closed, hended.closeError, hended.none_delivered⟩
      simp only [Async.closedRest, hnext]
      exact ih body hafter hclosed
    | none =>
      have hrejects : stream.readFramed =
          { stream with reads := stream.reads ++ [.rejected stream.closeReason] } := by
        rw [Stream.readFramed, readProtodelim_of_next_eq_none hnext]
        exact if_pos hclosed
      rw [hrejects]
      simp only [List.getElem?_concat_length]
      refine .settled hclosed rfl rfl fun tasks ↦ ?_
      simp [Async.closedRest, hnext, Awaiting.rest, Stream.closeReason, hended.closeError]
  | readAck reader result =>
    obtain ⟨hinstalled, hsent⟩ := closed_install_of_closed hclosed reader
    rw [Async.proceed, Running.awaitAck, delivered_install, hended.none_delivered, ← hsent]
    cases hbuffer : stream.buffer with
    | cons ack rest => exact receive_closed hinstalled reader result ack rest
    | nil =>
      rw [if_pos rfl, List.append_nil, List.head?_nil]
      cases hwatches : reader.watchesClose with
      | false =>
        refine .settled hinstalled rfl rfl fun tasks ↦ ?_
        simp [Async.closedRest, hwatches, Awaiting.rest]
      | true =>
        rw [closings_install hended hwatches]
        refine .settled hinstalled rfl rfl fun tasks ↦ ?_
        simp [Async.closedRest, hwatches, Awaiting.rest]

/-! ## The end of the stream -/

theorem getElem?_settleAll_of_mem {Value : Type} {waiters : List ℕ} {waiter : ℕ}
    {promises : List (Promise Value)} {outcome : Promise Value} (hmem : waiter ∈ waiters)
    (hpending : promises[waiter]? = some .pending) (hsettled : outcome ≠ .pending) :
    (Stream.settleAll waiters outcome promises)[waiter]? = some outcome := by
  induction waiters generalizing promises with
  | nil => cases hmem
  | cons first waiters ih =>
    rw [Stream.settleAll, List.foldl_cons]
    by_cases hfirst : first = waiter
    · refine getElem?_settleAll hsettled ?_ waiters outcome
      rw [hfirst, List.getElem?_modify_eq, hpending]
      rfl
    · refine ih ((List.mem_cons.mp hmem).resolve_left (Ne.symm hfirst)) ?_
      rw [List.getElem?_modify_ne _ _ hfirst, hpending]

/-- A read that waits is rejected when the stream fails. -/
theorem rejected_fail {read : ℕ} (hwaits : stream.pendingResolvers = [read])
    (hpending : stream.reads[read]? = some .pending) (err : StreamError) :
    (stream.fail err).reads[read]? = some (.rejected err) := by
  apply getElem?_settleAll_of_mem _ hpending
  · intro heq
    cases heq
  · rw [hwaits]
    exact List.mem_singleton.mpr rfl

/-- A watcher is resolved when the stream fails. -/
theorem resolved_fail (hwatched : stream.Watched closing) (err : StreamError) :
    (stream.fail err).closings[closing]? = some (.resolved err) := by
  apply getElem?_settleAll_of_mem hwatched.waits hwatched.pending
  intro heq
  cases heq

/-- When the stream fails, a function is left with what it can do without it. -/
theorem Stands.fail {future : ℕ → Bytes → Position Result} (hstands : Stands engine running future)
    (err : StreamError) :
    StandsClosed engine err running.stream.sent
      (Running.resume engine (running.stream.fail err) running.awaiting)
      ((future 0 []).closedRest engine err) := by
  obtain ⟨-, hrest, hunread⟩ := hstands.position_eq
  cases hstands with
  | task hidle hfuture =>
    refine .task ⟨rfl, rfl, hidle.none_delivered⟩ rfl fun tasks ↦ ?_
    rw [Position.closedRest, hrest, hunread rfl]
    rfl
  | frame hreading hfuture =>
    dsimp only [Running.resume]
    rw [rejected_fail hreading.waits hreading.pending]
    refine .settled rfl rfl rfl fun tasks ↦ ?_
    rw [Position.closedRest, hrest]
    rfl
  | @ack stream reader closing result _ hacking hclosing hfuture =>
    have hdelivered : (stream.fail err).delivered.head? = none := by
      change stream.delivered.head? = none
      rw [hacking.none_delivered, List.head?_nil]
    dsimp only [Running.resume]
    rw [Running.awaitAck, hdelivered]
    cases hwatches : reader.watchesClose with
    | false =>
      refine .settled rfl rfl rfl fun tasks ↦ ?_
      rw [Position.closedRest, hrest]
      simp [Awaiting.rest, hwatches]
    | true =>
      rw [resolved_fail (hclosing hwatches)]
      refine .settled rfl rfl rfl fun tasks ↦ ?_
      rw [Position.closedRest, hrest]
      simp [Awaiting.rest, hwatches]
  | settled hfuture =>
    refine .settled rfl rfl rfl fun tasks ↦ ?_
    rw [Position.closedRest, hrest]
    rfl

/-- Why an event ends the stream. -/
def ClientEvent.closeReason : ClientEvent → Option StreamError
  | error => some .websocketError
  | closed code reason =>
    if code = 1000 ∨ code = 1001 ∨ code = 1005 then some .streamClosed
    else some (.websocketClosed code reason)
  | _ => none

theorem step_of_closeReason {event : ClientEvent} {err : StreamError} (hreason : event.closeReason = some err)
    (running : Running Result) :
    running.step engine event = Running.resume engine (running.stream.fail err) running.awaiting := by
  cases event with
  | message | task => cases hreason
  | error =>
    obtain rfl := Option.some.inj hreason
    rfl
  | closed code reason =>
    dsimp only [ClientEvent.closeReason] at hreason
    dsimp only [Running.step]
    rw [Stream.onclose]
    split_ifs at hreason ⊢ <;> obtain rfl := Option.some.inj hreason <;> rfl

/-- On a closed stream the end of a task goes on with what is left to do. -/
theorem StandsClosed.task_step (hstands : StandsClosed engine reason sent running future)
    (htask : running.awaiting.isTask = true) :
    StandsClosed engine reason sent (running.step engine .task) fun tasks ↦ future (tasks + 1) := by
  cases hstands with
  | @task stream next _ hended hsent hfuture =>
    have hsame : (fun tasks ↦ future (tasks + 1)) =
        fun tasks ↦ next.closedRest engine reason tasks stream.buffer := by
      funext tasks
      rw [hfuture, Async.closedRest]
    rw [hsame, ← hsent]
    exact proceed_closed hended next
  | settled hclosed hsent hnone hfuture =>
    rw [hnone] at htask
    cases htask

theorem StandsClosed.rest_eq (hstands : StandsClosed engine reason sent running future) :
    running.stream.closed = true ∧ running.stream.sent = sent ∧ running.awaiting.rest = future 0 := by
  cases hstands with
  | task hended hsent hfuture => exact ⟨hended.closed, hsent, by rw [hfuture]; rfl⟩
  | settled hclosed hsent hnone hfuture => exact ⟨hclosed, hsent, by rw [hfuture]⟩

theorem StandsClosed.run {count : ℕ} (hstands : StandsClosed engine reason sent running future)
    (hlegal : (asyncMachine engine program).Legal running (List.replicate count .task)) :
    StandsClosed engine reason sent ((asyncMachine engine program).run running (List.replicate count .task))
      fun tasks ↦ future (count + tasks) := by
  induction count generalizing running future with
  | zero =>
    simp only [Nat.zero_add]
    exact hstands
  | succ count ih =>
    rw [List.replicate_succ] at hlegal ⊢
    have hrest := ih (hstands.task_step hlegal.1) hlegal.2
    have hsame : (fun tasks ↦ future (count + 1 + tasks)) = fun tasks ↦ future (count + tasks + 1) := by
      funext tasks
      rw [Nat.add_right_comm]
    rw [Machine.run_cons, hsame]
    exact hrest

/-- The acknowledgement is read in this way, wherever the function gets to it. -/
def Async.AcksWith (reader : AckReader) : Async Result → Prop
  | throws _ => True
  | later next => next.AcksWith reader
  | sendFramed _ next => next.AcksWith reader
  | readFramed next => ∀ body, (next body).AcksWith reader
  | readAck other _ => other = reader

/-- A function that waits for the stream would hear of its end. -/
inductive Told (reader : AckReader) : Running Result → Prop
  | task {stream : Stream} {next : Async Result} (hnone : stream.pendingResolvers = [])
      (hnext : next.AcksWith reader) : Told reader ⟨stream, .task next⟩
  | frame {stream : Stream} {read : ℕ} {next : Bytes → Async Result} (hopened : stream.closed = false)
      (hwaits : stream.pendingResolvers = [read]) (hpending : stream.reads[read]? = some .pending)
      (hnext : ∀ body, (next body).AcksWith reader) : Told reader ⟨stream, .frame read next⟩
  | ack {stream : Stream} {closing : ℕ} {result : Result} (hdelivered : stream.delivered = [])
      (hwatched : reader.watchesClose = true → stream.closed = false ∧ stream.Watched closing) :
      Told reader ⟨stream, .ack reader closing result⟩
  | settled {stream : Stream} {outcome : Except ClientError Result} :
      Told reader ⟨stream, .settled outcome⟩

variable {reader : AckReader}

theorem told_receive (stream : Stream) (result : Result) (chunk : Bytes) :
    Told reader (reader.receive stream result chunk) := by
  cases chunk with
  | nil => exact .settled
  | cons ack rest =>
    rw [AckReader.receive]
    split_ifs <;> exact .settled

theorem told_awaitAck
    (hwatched : reader.watchesClose = true → (∃ err, stream.closings[closing]? = some (.resolved err)) ∨
      (stream.closed = false ∧ stream.Watched closing)) (result : Result) :
    Told reader (Running.awaitAck stream reader closing result) := by
  rw [Running.awaitAck]
  split
  · exact told_receive ..
  · next hnone =>
    have hdelivered := List.head?_eq_none_iff.mp hnone
    cases hwatches : reader.watchesClose with
    | false =>
      refine .ack hdelivered fun htrue ↦ ?_
      rw [hwatches] at htrue
      cases htrue
    | true =>
      rcases hwatched hwatches with ⟨err, hresolved⟩ | ⟨hopened, hwatched⟩
      · rw [hresolved]
        exact .settled
      · rw [hwatched.pending]
        exact .ack hdelivered fun _ ↦ ⟨hopened, hwatched⟩

theorem told_proceed (hnone : stream.pendingResolvers = []) (hprogram : program.AcksWith reader) :
    Told reader (program.proceed engine stream) := by
  induction program generalizing stream with
  | throws err => exact .settled
  | later next => exact .task hnone hprogram
  | sendFramed body next ih =>
    rw [Async.proceed]
    split
    · exact .settled
    · refine ih ?_ hprogram
      rw [Stream.sendFramed]
      split
      · exact hnone
      · rw [Stream.send]
        split_ifs <;> exact hnone
  | readFramed next ih =>
    rw [Async.proceed]
    cases hnext : (protodelim engine).next stream.buffer with
    | some found =>
      rw [Stream.readFramed_of_some hnext]
      simp only [List.getElem?_concat_length]
      exact ih _ hnone (hprogram _)
    | none =>
      have hcut := readProtodelim_of_next_eq_none hnext
      cases hclosed : stream.closed with
      | true =>
        simp only [Stream.readFramed, hcut, hclosed, if_true, List.getElem?_concat_length]
        exact .settled
      | false =>
        rw [Stream.readFramed_of_none hcut hclosed]
        simp only [List.getElem?_concat_length]
        refine .frame hclosed ?_ List.getElem?_concat_length hprogram
        dsimp only
        rw [hnone, List.nil_append]
  | readAck other result =>
    obtain rfl : other = reader := hprogram
    rw [Async.proceed]
    apply told_awaitAck
    intro hwatches
    cases hclosed : stream.closed with
    | true =>
      refine .inl ⟨stream.closeReason, ?_⟩
      simp [AckReader.install, hwatches, onData_eq, Stream.whenClosed, hclosed, Stream.closeReason]
    | false => exact .inr ⟨closed_install hclosed other, watched_install hclosed other hwatches⟩

/-- The end of the stream reaches a function that reads or watches. -/
theorem Told.fail (htold : Told reader running) (err : StreamError) :
    Told reader (Running.resume engine (running.stream.fail err) running.awaiting) := by
  cases htold with
  | task hnone hnext => exact .task rfl hnext
  | frame hopened hwaits hpending hnext =>
    dsimp only [Running.resume]
    rw [rejected_fail hwaits hpending]
    exact .settled
  | ack hdelivered hwatched =>
    apply told_awaitAck
    intro hwatches
    exact .inl ⟨err, resolved_fail (hwatched hwatches).2 err⟩
  | settled => exact .settled

/-- What a frame leaves as it is. -/
structure SameWaiters (stream next : Stream) : Prop where
  closed : next.closed = stream.closed
  closeWaiters : next.closeWaiters = stream.closeWaiters
  closings : next.closings = stream.closings

theorem sameWaiters_serve (stream : Stream) (waiters : List ℕ) :
    SameWaiters stream (stream.serve waiters) := by
  induction waiters generalizing stream with
  | nil => exact ⟨rfl, rfl, rfl⟩
  | cons waiter waiters ih =>
    rw [Stream.serve]
    split
    · exact ⟨rfl, rfl, rfl⟩
    · exact ⟨rfl, rfl, rfl⟩
    · obtain ⟨hclosed, hwaiters, hclosings⟩ := ih _
      exact ⟨hclosed, hwaiters, hclosings⟩

theorem sameWaiters_onMessage (engine : Engine) (stream : Stream) (data : MessageData) :
    SameWaiters stream (stream.onMessage engine data) := by
  cases data with
  | text text => exact ⟨rfl, rfl, rfl⟩
  | arrayBuffer chunk =>
    rw [Stream.onMessage, Stream.onBinary]
    split
    · exact ⟨rfl, rfl, rfl⟩
    · split
      · exact ⟨rfl, rfl, rfl⟩
      · obtain ⟨hclosed, hwaiters, hclosings⟩ := sameWaiters_serve _ _
        exact ⟨hclosed, hwaiters, hclosings⟩

theorem pendingResolvers_onMessage (hnone : stream.pendingResolvers = []) (data : MessageData) :
    (stream.onMessage engine data).pendingResolvers = [] := by
  cases data with
  | text text => exact hnone
  | arrayBuffer chunk =>
    rw [Stream.onMessage, Stream.onBinary, hnone]
    split
    · exact hnone
    · split
      · exact hnone
      · rfl

/-- A read that waits goes on waiting, or it has its message. -/
theorem reads_onMessage (engine : Engine) {read : ℕ} (hwaits : stream.pendingResolvers = [read])
    (hpending : stream.reads[read]? = some .pending) (data : MessageData) :
    ((stream.onMessage engine data).pendingResolvers = [read] ∧
        (stream.onMessage engine data).reads[read]? = some .pending) ∨
      ((stream.onMessage engine data).pendingResolvers = [] ∧
        ∃ body, (stream.onMessage engine data).reads[read]? = some (.resolved body)) := by
  cases data with
  | text text => exact .inl ⟨hwaits, hpending⟩
  | arrayBuffer chunk =>
    rw [Stream.onMessage, Stream.onBinary, hwaits]
    split
    · exact .inl ⟨hwaits, hpending⟩
    · split
      · exact .inl ⟨hwaits, hpending⟩
      · rw [Stream.serve]
        split
        · exact .inl ⟨rfl, hpending⟩
        · exact .inl ⟨rfl, hpending⟩
        · next ready hready =>
          refine .inr ⟨rfl, ready.msg, ?_⟩
          dsimp only [Stream.serve]
          rw [List.getElem?_modify_eq, hpending]
          rfl

theorem Told.message (htold : Told reader running) (data : MessageData) :
    Told reader (Running.resume engine (running.stream.onMessage engine data) running.awaiting) := by
  have hsame := sameWaiters_onMessage engine running.stream data
  cases htold with
  | task hnone hnext => exact .task (pendingResolvers_onMessage hnone data) hnext
  | frame hopened hwaits hpending hnext =>
    dsimp only [Running.resume]
    rcases reads_onMessage engine hwaits hpending data with ⟨hwaits, hpending⟩ | ⟨hnone, body, hbody⟩
    · rw [hpending]
      exact .frame (hsame.closed.trans hopened) hwaits hpending hnext
    · rw [hbody]
      exact told_proceed hnone (hnext body)
  | ack hdelivered hwatched =>
    apply told_awaitAck
    intro hwatches
    obtain ⟨hopened, hmem, hpending⟩ := hwatched hwatches
    refine .inr ⟨hsame.closed.trans hopened, ?_, ?_⟩
    · rw [hsame.closeWaiters]
      exact hmem
    · rw [hsame.closings]
      exact hpending
  | settled => exact .settled

/-- No event leaves a function waiting for an end that has passed. -/
theorem Told.step (htold : Told reader running) (event : ClientEvent) :
    Told reader (running.step engine event) := by
  cases event with
  | message data => exact htold.message data
  | error => exact htold.fail .websocketError
  | closed code reason =>
    dsimp only [Running.step]
    rw [Stream.onclose]
    split_ifs <;> exact htold.fail _
  | task =>
    cases htold with
    | task hnone hnext => exact told_proceed hnone hnext
    | frame hopened hwaits hpending hnext => exact .frame hopened hwaits hpending hnext
    | ack hdelivered hwatched => exact .ack hdelivered hwatched
    | settled => exact .settled

/-- After any events, a function that waits will hear of the end or does not watch for it. -/
theorem told_run (hprogram : program.AcksWith reader) (events : List ClientEvent) :
    Told reader ((asyncMachine engine program).run (asyncMachine engine program).init events) := by
  induction events using List.reverseRecOn with
  | nil => exact told_proceed rfl hprogram
  | append_singleton events event ih =>
    rw [Machine.run_append]
    exact ih.step event

/-- When the stream is closed and no task is left, every function has an outcome but one that waits for
the acknowledgement without watching. -/
theorem Told.of_closed (htold : Told reader running) (hclosed : running.stream.closed = true)
    (htask : running.awaiting.isTask = false) :
    running.awaiting.isSettled = true ∨
      reader.watchesClose = false ∧ ∃ closing result, running.awaiting = .ack reader closing result := by
  cases htold with
  | task hnone hnext => cases htask
  | frame hopened hwaits hpending hnext =>
    rw [hopened] at hclosed
    cases hclosed
  | @ack stream closing result hdelivered hwatched =>
    refine .inr ⟨?_, closing, result, rfl⟩
    by_contra hwatches
    rw [(hwatched (Bool.eq_true_of_not_eq_false hwatches)).1] at hclosed
    cases hclosed
  | settled => exact .inl rfl

/-- Nothing but data gives a function that does not watch its outcome. -/
theorem Told.unwatched_step (htold : Told reader running) (hwatches : reader.watchesClose = false)
    {result : Result} (hack : running.awaiting = .ack reader closing result) {event : ClientEvent}
    (hevent : ∀ chunk, event ≠ .binary chunk) :
    (running.step engine event).awaiting = .ack reader closing result := by
  have hawait : ∀ {stream : Stream}, stream.delivered = [] →
      (Running.awaitAck stream reader closing result).awaiting = .ack reader closing result := by
    intro stream hdelivered
    rw [Running.awaitAck, hdelivered, List.head?_nil, hwatches]
  cases htold with
  | task | frame | settled => cases hack
  | ack hdelivered hwatched =>
    cases hack
    cases event with
    | message data =>
      cases data with
      | arrayBuffer chunk => exact absurd rfl (hevent chunk)
      | text text => exact hawait hdelivered
    | error => exact hawait hdelivered
    | closed code reason =>
      dsimp only [Running.step]
      rw [Stream.onclose]
      split_ifs <;> exact hawait hdelivered
    | task => rfl

theorem Told.unwatched_run (htold : Told reader running) (hwatches : reader.watchesClose = false)
    {result : Result} (hack : running.awaiting = .ack reader closing result) {events : List ClientEvent}
    (hevents : ∀ event ∈ events, ∀ chunk, event ≠ .binary chunk) :
    ((asyncMachine engine program).run running events).awaiting = .ack reader closing result := by
  induction events generalizing running with
  | nil => exact hack
  | cons event events ih =>
    obtain ⟨hfirst, hothers⟩ := List.forall_mem_cons.mp hevents
    rw [Machine.run_cons]
    exact ih (htold.step event) (htold.unwatched_step hwatches hack hfirst) hothers

end Mosey.Typescript
