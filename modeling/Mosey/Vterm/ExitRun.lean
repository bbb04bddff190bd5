import Mosey.Vterm.FanOut
import Mosey.Vterm.Queries
import Mosey.Vterm.Resume

/-!
# The goroutines at the end of a session

When the child exits, three kinds of goroutines are at work: the pump still reads what the child wrote
before, the bridge of each client puts the replay on its channel and then moves chunks from the channel to
the stream, and `Run` shuts the session down and closes the PTY. Nothing orders them. What each
client has on its channel and on its stream is followed through every step.
-/

namespace Mosey.Vterm

open Library Auth Streambuf

/-- Where `bridgeClient` stands with a client. -/
inductive StreamStage
  | admitted
  /-- The replay is read from the ring and not yet on the channel. -/
  | replaying
  | streaming
  /-- The output goroutine has returned. -/
  | stopped
  | closed
  deriving DecidableEq

/-- The output goroutine has not returned, or is still to be started. -/
def StreamStage.Live (stage : StreamStage) : Prop := stage ≠ .stopped ∧ stage ≠ .closed

instance (stage : StreamStage) : Decidable stage.Live := inferInstanceAs (Decidable (_ ∧ _))

/-- The stream of a client, which asks for the output from `fromSeq` on; `joined` counts the bytes that
were broadcast before its attach. -/
structure Attachment where
  fromSeq : ℕ
  joined : ℕ
  replay : Bytes
  written : Bytes
  stage : StreamStage
  deriving DecidableEq

/-- The replay as it is on the channel. -/
def Attachment.replayed (attachment : Attachment) : List Bytes :=
  if attachment.stage = .admitted ∨ attachment.stage = .replaying ∨ attachment.replay = [] then []
  else [attachment.replay]

/-- Where `pumpOutput` stands. -/
inductive OutputPump
  | reading
  | writing (out : Bytes)
  /-- The bytes are in the ring and not yet broadcast. -/
  | sending (out : Bytes)
  | returned
  deriving DecidableEq

def OutputPump.pending : OutputPump → Bytes
  | .writing out => out
  | .sending out => out
  | _ => []

def OutputPump.inRing : OutputPump → Bytes
  | .sending out => out
  | _ => []

/-- Where `Run` stands. -/
inductive ExitStage
  | running
  | waited
  | shutDown
  | closed
  deriving DecidableEq

def outputRingCapacity : ℤ := 256 * 1024

def newOutputRing : OutputRing := .new outputRingCapacity

/-- The child, the pump and `Run`. -/
structure OutputSide where
  responder : DAResponder
  /-- The child's output that the pump has read. -/
  consumed : Bytes
  /-- The child's output that is still in the PTY. -/
  unread : Bytes
  /-- The bytes that were broadcast. -/
  fannedOut : Bytes
  ring : OutputRing
  pump : OutputPump
  exited : Bool
  exit : ExitStage
  /-- The clients that the shutdown found in the registry. -/
  dismissed : List ℕ

/-- What was written to the ring. -/
def OutputSide.ringed (side : OutputSide) : Bytes := side.fannedOut ++ side.pump.inRing

structure ExitRun extends OutputSide where
  session : Session
  attachments : ℕ → Attachment

inductive ExitAction
  | addClient (identity : Identity) (remote : String) (fromSeq : ℕ)
  | readReplay (id : ℕ)
  | enqueueReplay (id : ℕ)
  /-- Any other operation of a client or of the administration. -/
  | operate (action : SessionAction)
  | childWrite (bytes : Bytes)
  | childExit
  | read (n : ℕ)
  | writeRing
  | broadcast
  | pumpReturn
  /-- The output goroutine takes a chunk and writes it to the stream. -/
  | deliver (id : ℕ)
  /-- The output goroutine takes `done` and returns. -/
  | stop (id : ℕ)
  | closeStream (id : ℕ)
  | removeClient (id : ℕ)
  | wait
  | shutdown
  | closePTY

namespace ExitRun

/-- What the child has written. -/
def output (state : ExitRun) : Bytes := state.consumed ++ state.unread

/-- What waits in the channel of a client. -/
def queue (state : ExitRun) (id : ℕ) : List Bytes :=
  match state.session.clients.find? fun client ↦ client.id = id with
  | none => []
  | some client => client.outCh.queued

def setAttachment (state : ExitRun) (id : ℕ) (attachment : Attachment) : ExitRun :=
  { state with attachments := Function.update state.attachments id attachment }

def setStage (state : ExitRun) (id : ℕ) (stage : StreamStage) : ExitRun :=
  state.setAttachment id { state.attachments id with stage := stage }

def step (state : ExitRun) : ExitAction → ExitRun
  | .addClient identity remote fromSeq =>
    match state.session.addClientLocked identity remote with
    | none => state
    | some (added, client, _) =>
      { state with
        session := added
        attachments := Function.update state.attachments client.id
          ⟨fromSeq, state.fannedOut.length, [], [], .admitted⟩ }
  | .readReplay id =>
    let attachment := state.attachments id
    state.setAttachment id
      { attachment with replay := bridgeReplay state.ring attachment.fromSeq, stage := .replaying }
  | .enqueueReplay id =>
    let replay := (state.attachments id).replay
    let sent : ExitRun := { state with session := state.session.step (.sendReplay id replay) }
    (if replay = [] then state else sent).setStage id .streaming
  | .operate action => { state with session := state.session.step action }
  | .childWrite bytes => { state with unread := state.unread ++ bytes }
  | .childExit => { state with exited := true }
  | .read n =>
    let processed := state.responder.process (state.unread.take n)
    { state with
      responder := processed.responder
      consumed := state.consumed ++ state.unread.take n
      unread := state.unread.drop n
      pump := if processed.out = [] then .reading else .writing processed.out }
  | .writeRing =>
    match state.pump with
    | .writing out => { state with ring := (state.ring.write out).1, pump := .sending out }
    | _ => state
  | .broadcast =>
    match state.pump with
    | .sending out =>
      { state with
        session := state.session.step (.broadcast out)
        fannedOut := state.fannedOut ++ out
        pump := .reading }
    | _ => state
  | .pumpReturn => { state with pump := .returned }
  | .deliver id =>
    match state.queue id with
    | [] => state
    | chunk :: _ =>
      { state with
        session := state.session.step (.receive id)
        attachments := Function.update state.attachments id
          { state.attachments id with written := (state.attachments id).written ++ chunk } }
  | .stop id => state.setStage id .stopped
  | .closeStream id => state.setStage id .closed
  | .removeClient id => { state with session := state.session.step (.removeClient id) }
  | .wait => { state with exit := .waited }
  | .shutdown =>
    { state with
      session := state.session.step .shutdown
      exit := .shutDown
      dismissed := (state.session.clients.filter (·.registered)).map SessionClient.id }
  | .closePTY => { state with exit := .closed }

/-- The operations that are no step of the pump, of a bridge or of `Run`. -/
def IsOperation : SessionAction → Prop
  | .addClient _ _ => False
  | .broadcast _ => False
  | .sendReplay _ _ => False
  | .receive _ => False
  | .removeClient _ => False
  | .shutdown => False
  | _ => True

/-- The order in which each goroutine takes its own steps. A read returns at most the 4096 bytes of the
pump's buffer, and fails when the child has exited and everything is read or when the PTY is closed. -/
def allowed (state : ExitRun) : ExitAction → Prop
  | .addClient _ _ _ => True
  | .readReplay id => (state.attachments id).stage = .admitted
  | .enqueueReplay id => (state.attachments id).stage = .replaying
  | .operate action => IsOperation action
  | .childWrite _ => state.exited = false
  | .childExit => True
  | .read n => state.pump = .reading ∧ 0 < n ∧ n ≤ 4096 ∧ n ≤ state.unread.length ∧
      state.exit ≠ .closed
  | .writeRing => True
  | .broadcast => True
  | .pumpReturn => state.pump = .reading ∧
      (state.exited = true ∧ state.unread = [] ∨ state.exit = .closed)
  | .deliver id => (state.attachments id).stage = .streaming
  | .stop id => (state.attachments id).stage = .streaming ∧
      ∃ client ∈ state.session.clients, client.id = id ∧ client.kicked = true
  | .closeStream id => (state.attachments id).stage = .stopped
  | .removeClient id => (state.attachments id).stage = .closed
  | .wait => state.exited = true ∧ state.exit = .running
  | .shutdown => state.exit = .waited
  | .closePTY => state.exit = .shutDown

def machine (mode : Mode) : Machine ExitRun ExitAction where
  init :=
    { session := .start mode
      responder := .idle
      consumed := []
      unread := []
      fannedOut := []
      ring := newOutputRing
      pump := .reading
      exited := false
      exit := .running
      attachments := fun _ ↦ ⟨0, 0, [], [], .streaming⟩
      dismissed := [] }
  allowed := allowed
  step := step

/-- The shutdown waits for the pump, the pump does not end while the responder holds bytes, an output
goroutine takes `done` with an empty channel only, and no chunk is broadcast to a client whose output
goroutine has returned. -/
def Orderly (state : ExitRun) : ExitAction → Prop
  | .shutdown => state.pump = .returned
  | .pumpReturn => state.responder.held = []
  | .stop id => state.queue id = []
  | .broadcast => ∀ client ∈ state.session.clients, client.registered = true →
      (state.attachments client.id).stage.Live
  | _ => True

instance (action : SessionAction) : Decidable (IsOperation action) := by
  induction action using SessionAction.casesOn <;> dsimp only [IsOperation] <;> infer_instance

instance (mode : Mode) (state : ExitRun) (action : ExitAction) :
    Decidable ((machine mode).allowed state action) := by
  induction action using ExitAction.casesOn <;> dsimp only [machine, allowed] <;> infer_instance

instance (state : ExitRun) (action : ExitAction) : Decidable (state.Orderly action) := by
  induction action using ExitAction.casesOn <;> dsimp only [Orderly] <;> infer_instance

/-! ## What each client has -/

/-- The replay is a part of this stream that reaches from somewhere to the attach at least. -/
def IsReplay (stream : Bytes) (joined : ℕ) (replay : Bytes) : Prop :=
  ∃ start stop, joined ≤ stop ∧ stop ≤ stream.length ∧ replay = (stream.take stop).drop start

/-- The channel holds the replay, and around it the stream since the attach. -/
def Carries (sent : List Bytes) (stream : Bytes) (attachment : Attachment) : Prop :=
  ∃ earlier later, sent = earlier ++ attachment.replayed ++ later ∧
    (earlier ++ later).flatten = stream.drop attachment.joined

/-- What was taken from the channel is on the stream, nothing waits behind an output goroutine that has
returned, and a client that was never skipped was sent everything since its attach beside its replay. -/
structure Served (state : ExitRun) (id : ℕ) (mailbox : Mailbox) : Prop where
  written : (state.attachments id).written = mailbox.outCh.taken.flatten
  drained : ¬ (state.attachments id).stage.Live → mailbox.outCh.queued = []
  joined_le : (state.attachments id).joined ≤ state.fannedOut.length
  replay : IsReplay state.ringed (state.attachments id).joined (state.attachments id).replay
  sent : mailbox.registered = true ∨ id ∈ state.dismissed → mailbox.dropped = 0 →
    Carries mailbox.outCh.sent state.fannedOut (state.attachments id)

def AllServed (state : ExitRun) : Prop :=
  ∀ client ∈ state.session.clients, state.Served client.id client.mailbox

theorem IsReplay.of_prefix {stream longer replay : Bytes} {joined : ℕ} (hlonger : stream <+: longer)
    (hreplay : IsReplay stream joined replay) : IsReplay longer joined replay := by
  obtain ⟨start, stop, hjoined, hstop, rfl⟩ := hreplay
  obtain ⟨more, rfl⟩ := hlonger
  refine ⟨start, stop, hjoined, ?_, ?_⟩
  · rw [List.length_append]
    exact Nat.le_add_right_of_le hstop
  · rw [List.take_append_of_le_length hstop]

/-- A replay reaches to the end of what is in the ring. -/
theorem isReplay_bridgeReplay {ring : OutputRing} {stream : Bytes} (hretains : ring.Retains stream)
    {joined : ℕ} (hjoined : joined ≤ stream.length) (fromSeq : ℕ) :
    IsReplay stream joined (bridgeReplay ring fromSeq) := by
  have hsuffix : ∃ start, bridgeReplay ring fromSeq = stream.drop start := by
    rcases Nat.eq_zero_or_pos fromSeq with rfl | hpos
    · exact ⟨_, (bridgeReplay_zero ring).trans hretains.data_eq⟩
    · rcases Nat.lt_or_ge fromSeq ring.firstSeq with hevicted | hkept
      · exact ⟨stream.length, (bridgeReplay_of_lt hpos hevicted).trans List.drop_length.symm⟩
      · exact ⟨_, bridgeReplay_of_le hretains hkept⟩
  obtain ⟨start, hstart⟩ := hsuffix
  exact ⟨start, stream.length, hjoined, le_rfl, by rw [hstart, List.take_length]⟩

variable {state next : ExitRun} {id : ℕ} {mailbox : Mailbox}

theorem queue_eq (hnumbered : state.session.Numbered) {client : SessionClient}
    (hclient : client ∈ state.session.clients) : state.queue client.id = client.outCh.queued := by
  unfold queue
  cases hfound : state.session.clients.find? fun other ↦ other.id = client.id with
  | none => simpa using List.find?_eq_none.mp hfound client hclient
  | some found =>
    have hid : found.id = client.id := by simpa using List.find?_some hfound
    rw [hnumbered.eq_of_id (List.mem_of_find?_eq_some hfound) hclient hid]

/-- The clients are served after an operation, if each is once its own event is handled. -/
theorem allServed_of_events (action : SessionAction)
    (hsession : next.session = state.session.step action)
    (hadmitted : state.session.admitted action = [])
    (hserved : ∀ client ∈ state.session.clients, next.Served client.id
      ((action.event? client.id).elim client.mailbox client.mailbox.handle)) : next.AllServed := by
  intro client hclient
  rw [hsession, Session.mem_step, hadmitted] at hclient
  obtain ⟨before, hbefore, rfl⟩ := hclient.resolve_right List.not_mem_nil
  rw [(state.session.after_evolves action before).id, Session.mailbox_after]
  exact hserved before hbefore

/-- A client stays served when nothing is done to it, and the ring may get more. -/
theorem Served.of_same (hserved : state.Served id mailbox)
    (hattachment : next.attachments id = state.attachments id)
    (hfanned : next.fannedOut = state.fannedOut) (hringed : state.ringed <+: next.ringed)
    (hdismissed : next.dismissed = state.dismissed) : next.Served id mailbox := by
  constructor
  · rw [hattachment]
    exact hserved.written
  · rw [hattachment]
    exact hserved.drained
  · rw [hattachment, hfanned]
    exact hserved.joined_le
  · rw [hattachment]
    exact hserved.replay.of_prefix hringed
  · rw [hattachment, hfanned, hdismissed]
    exact hserved.sent

/-- A step on one stream leaves the other clients served. -/
theorem allServed_setAttachment (hserved : state.AllServed) {attachment : Attachment}
    (hself : ∀ client ∈ state.session.clients, client.id = id →
      (state.setAttachment id attachment).Served client.id client.mailbox) :
    (state.setAttachment id attachment).AllServed := by
  intro client hclient
  by_cases hid : client.id = id
  · exact hself client hclient hid
  · exact (hserved client hclient).of_same (Function.update_of_ne hid _ _) rfl List.prefix_rfl rfl

/-- An operation on one client leaves the others served. -/
theorem allServed_of_event (action : SessionAction) {event : ClientEvent}
    (hevent : ∀ other, action.event? other = if id = other then some event else none)
    (hsession : next.session = state.session.step action)
    (hadmitted : state.session.admitted action = []) (hserved : state.AllServed)
    (hothers : ∀ other ≠ id, next.attachments other = state.attachments other)
    (hfanned : next.fannedOut = state.fannedOut) (hringed : next.ringed = state.ringed)
    (hdismissed : next.dismissed = state.dismissed)
    (hself : ∀ client ∈ state.session.clients, client.id = id →
      next.Served client.id (client.mailbox.handle event)) : next.AllServed := by
  apply allServed_of_events action hsession hadmitted
  intro client hclient
  rw [hevent]
  by_cases hid : id = client.id
  · rw [if_pos hid]
    exact hself client hclient hid.symm
  · rw [if_neg hid]
    exact (hserved client hclient).of_same (hothers _ (Ne.symm hid)) hfanned (hringed ▸ List.prefix_rfl)
      hdismissed

theorem fannedOut_le_ringed (state : ExitRun) : state.fannedOut.length ≤ state.ringed.length := by
  rw [OutputSide.ringed, List.length_append]
  exact Nat.le_add_right _ _

/-- A client that joins is owed the broadcasts from then on. -/
theorem allServed_addClient (hnumbered : state.session.Numbered) (hserved : state.AllServed)
    (identity : Identity) (remote : String) (fromSeq : ℕ) :
    (state.step (.addClient identity remote fromSeq)).AllServed := by
  cases hadd : state.session.addClientLocked identity remote with
  | none => simpa [step, hadd] using hserved
  | some result =>
    obtain ⟨added, client, size⟩ := result
    obtain ⟨_, _, _, _, _, hclients, _, hid, _⟩ := Session.addClientLocked_eq_some hadd
    intro other hother
    simp only [step, hadd, hclients, List.mem_append, List.mem_map, List.mem_singleton] at hother ⊢
    rcases hother with ⟨before, hbefore, rfl⟩ | rfl
    · have hne : before.id ≠ client.id := by
        have := (hnumbered.id_bounds hbefore).2
        omega
      have hmailbox := state.session.mailbox_after (.addClient identity remote) before
      rw [(state.session.after_evolves _ before).id, hmailbox]
      exact (hserved before hbefore).of_same (Function.update_of_ne hne _ _) rfl List.prefix_rfl rfl
    · rw [Session.mailbox_of_addClientLocked hadd]
      constructor
      · simp [Mailbox.fresh, Channel.taken]
      · exact fun _ ↦ rfl
      · simp
      · simpa using ⟨_, _, le_rfl, state.fannedOut_le_ringed, List.drop_take_self.symm⟩
      · intro _ _
        exact ⟨[], [], by simp [Mailbox.fresh, Attachment.replayed]⟩

/-- The replay is read from the ring. -/
theorem allServed_readReplay (hretains : state.ring.Retains state.ringed) (hserved : state.AllServed)
    (hadmitted : (state.attachments id).stage = .admitted) :
    (state.step (.readReplay id)).AllServed := by
  apply allServed_setAttachment hserved
  rintro client hclient rfl
  have hbefore := hserved client hclient
  constructor
  · simpa [setAttachment] using hbefore.written
  · simp [setAttachment, StreamStage.Live]
  · simpa [setAttachment] using hbefore.joined_le
  · simp only [setAttachment, Function.update_self]
    exact isReplay_bridgeReplay hretains (hbefore.joined_le.trans state.fannedOut_le_ringed) _
  · simpa [setAttachment, Carries, Attachment.replayed, hadmitted] using hbefore.sent

/-- A stage in which the replay counts as before, and which leaves nothing behind if the output goroutine has
returned. -/
theorem allServed_setStage (hserved : state.AllServed) {stage : StreamStage}
    (hreplayed : { state.attachments id with stage := stage }.replayed = (state.attachments id).replayed)
    (hdrained : ¬ stage.Live → ∀ client ∈ state.session.clients, client.id = id → client.outCh.queued = []) :
    (state.setStage id stage).AllServed := by
  apply allServed_setAttachment hserved
  rintro client hclient rfl
  have hbefore := hserved client hclient
  constructor
  · simpa [setAttachment] using hbefore.written
  · intro hstopped
    exact hdrained (by simpa [setAttachment] using hstopped) client hclient rfl
  · simpa [setAttachment] using hbefore.joined_le
  · simpa [setAttachment] using hbefore.replay
  · simpa [setAttachment, Carries, hreplayed] using hbefore.sent

/-- The replay comes onto the channel behind what was broadcast since the attach. -/
theorem Served.enqueueReplay (hserved : state.Served id mailbox)
    (hreplaying : (state.attachments id).stage = .replaying)
    (hattachment : next.attachments id = { state.attachments id with stage := .streaming })
    (hfanned : next.fannedOut = state.fannedOut) (hringed : next.ringed = state.ringed)
    (hdismissed : next.dismissed = state.dismissed) (hreplay : (state.attachments id).replay ≠ []) :
    next.Served id (mailbox.handle (.offer (.replay (state.attachments id).replay))) := by
  have hreaches : (Offer.replay (state.attachments id).replay).reaches mailbox.registered = true := rfl
  rw [Mailbox.handle_offer hreaches, Offer.bytes]
  constructor
  · rw [hattachment, Mailbox.taken_send]
    exact hserved.written
  · simp [hattachment, StreamStage.Live]
  · rw [hattachment, hfanned]
    exact hserved.joined_le
  · rw [hattachment, hringed]
    exact hserved.replay
  · rw [hattachment, hfanned, hdismissed, Mailbox.registered_send]
    intro hthere hdropped
    rcases mailbox.send_cases (state.attachments id).replay with ⟨hsent, hsame, _⟩ | ⟨_, hskipped, _⟩
    · obtain ⟨earlier, later, hbefore, hbytes⟩ := hserved.sent hthere (hsame ▸ hdropped)
      have hnone : (state.attachments id).replayed = [] := by simp [Attachment.replayed, hreplaying]
      rw [hnone, List.append_nil] at hbefore
      refine ⟨earlier ++ later, [], ?_, by simpa using hbytes⟩
      rw [hsent, hbefore, List.append_nil]
      simp [Attachment.replayed, hreplay]
    · omega

theorem allServed_enqueueReplay (hserved : state.AllServed)
    (hreplaying : (state.attachments id).stage = .replaying) :
    (state.step (.enqueueReplay id)).AllServed := by
  by_cases hreplay : (state.attachments id).replay = []
  · have hstep : state.step (.enqueueReplay id) = state.setStage id .streaming := by simp [step, hreplay]
    rw [hstep]
    apply allServed_setStage hserved
    · simp [Attachment.replayed, hreplay]
    · exact fun hstopped ↦ absurd (by decide) hstopped
  · have hstep : state.step (.enqueueReplay id) = ExitRun.setStage
        { state with session := state.session.step (.sendReplay id (state.attachments id).replay) } id
        .streaming := by
      simp [step, hreplay]
    rw [hstep]
    refine allServed_of_event (.sendReplay id _) (fun _ ↦ rfl) rfl rfl hserved
      (fun _ hne ↦ Function.update_of_ne hne _ _) rfl rfl rfl ?_
    rintro client hclient rfl
    exact (hserved client hclient).enqueueReplay hreplaying (Function.update_self _ _ _) rfl rfl rfl hreplay

/-- A chunk reaches a client that is in the registry, unless it is skipped. -/
theorem Served.chunk {out : Bytes}
    (hserved : state.Served id mailbox) (hdismissed : next.dismissed = [])
    (hlive : mailbox.registered = true → (state.attachments id).stage.Live)
    (hattachment : next.attachments id = state.attachments id)
    (hfanned : next.fannedOut = state.fannedOut ++ out) (hringed : next.ringed = state.ringed) :
    next.Served id (mailbox.handle (.offer (.live out))) := by
  have hle : (next.attachments id).joined ≤ next.fannedOut.length := by
    rw [hattachment, hfanned, List.length_append]
    exact Nat.le_add_right_of_le hserved.joined_le
  have hreplay : IsReplay next.ringed (next.attachments id).joined (next.attachments id).replay := by
    rw [hattachment, hringed]
    exact hserved.replay
  by_cases hregistered : mailbox.registered = true
  · have hreaches : (Offer.live out).reaches mailbox.registered = true := hregistered
    rw [Mailbox.handle_offer hreaches, Offer.bytes]
    refine ⟨?_, ?_, hle, hreplay, ?_⟩
    · rw [hattachment, Mailbox.taken_send]
      exact hserved.written
    · rw [hattachment]
      exact fun hstopped ↦ absurd (hlive hregistered) hstopped
    · intro _ hdropped
      rcases mailbox.send_cases out with ⟨hsent, hsame, _⟩ | ⟨_, hskipped, _⟩
      · obtain ⟨earlier, later, hbefore, hbytes⟩ := hserved.sent (.inl hregistered) (hsame ▸ hdropped)
        rw [hattachment, hfanned, hsent, hbefore]
        refine ⟨earlier, later ++ [out], by simp, ?_⟩
        rw [← List.append_assoc, List.flatten_append, hbytes, List.flatten_singleton,
          List.drop_append_of_le_length hserved.joined_le]
      · omega
  · have hgone : (Offer.live out).reaches mailbox.registered = false := Bool.eq_false_iff.mpr hregistered
    rw [Mailbox.handle_offer_of_not hgone]
    refine ⟨?_, ?_, hle, hreplay, ?_⟩
    · rw [hattachment]
      exact hserved.written
    · rw [hattachment]
      exact hserved.drained
    · rintro (hstill | hmem)
      · exact absurd hstill hregistered
      · simp [hdismissed] at hmem

theorem allServed_broadcast (hserved : state.AllServed)
    (hlate : state.dismissed ≠ [] → state.pump = .returned)
    (hlive : state.Orderly .broadcast) : (state.step .broadcast).AllServed := by
  cases hpump : state.pump with
  | sending out =>
    have hdismissed : state.dismissed = [] := by
      by_contra hsome
      rw [hpump] at hlate
      cases hlate hsome
    have hstep : state.step .broadcast =
        { state with
          session := state.session.step (.broadcast out)
          fannedOut := state.fannedOut ++ out
          pump := .reading } := by
      simp [step, hpump]
    rw [hstep]
    apply allServed_of_events (.broadcast out) rfl rfl
    intro client hclient
    refine (hserved client hclient).chunk hdismissed (hlive client hclient) rfl rfl ?_
    simp [OutputSide.ringed, hpump, OutputPump.inRing]
  | _ => simpa [step, hpump] using hserved

theorem allServed_writeRing (hserved : state.AllServed) : (state.step .writeRing).AllServed := by
  cases hpump : state.pump with
  | writing out =>
    intro client hclient
    simp only [step, hpump] at hclient ⊢
    refine (hserved client hclient).of_same rfl rfl ?_ rfl
    simp [OutputSide.ringed, hpump, OutputPump.inRing]
  | _ => simpa [step, hpump] using hserved

/-- The output goroutine writes what it takes. -/
theorem allServed_deliver (hnumbered : state.session.Numbered) (hserved : state.AllServed)
    (hstreaming : (state.attachments id).stage = .streaming) :
    (state.step (.deliver id)).AllServed := by
  cases hqueue : state.queue id with
  | nil => simpa [step, hqueue] using hserved
  | cons chunk rest =>
    have hstep : state.step (.deliver id) =
        { state with
          session := state.session.step (.receive id)
          attachments := Function.update state.attachments id
            { state.attachments id with
              written := (state.attachments id).written ++ chunk } } := by
      simp [step, hqueue]
    rw [hstep]
    refine allServed_of_event (.receive id) (fun _ ↦ rfl) rfl rfl hserved
      (fun _ hne ↦ Function.update_of_ne hne _ _) rfl rfl rfl ?_
    rintro client hclient rfl
    have hbefore := hserved client hclient
    have hqueued : client.mailbox.outCh.queued = chunk :: rest :=
      (queue_eq hnumbered hclient).symm.trans hqueue
    constructor
    · simp [Mailbox.handle, Channel.taken_receive hqueued, hbefore.written]
    · simp [hstreaming, StreamStage.Live]
    · simpa using hbefore.joined_le
    · simpa [OutputSide.ringed] using hbefore.replay
    · simpa [Mailbox.handle, Carries, Attachment.replayed] using hbefore.sent

/-- A client that leaves takes nothing with it. -/
theorem Served.leave (hserved : state.Served id mailbox)
    (hattachment : next.attachments id = state.attachments id)
    (hfanned : next.fannedOut = state.fannedOut) (hringed : next.ringed = state.ringed)
    (hdismissed : id ∈ next.dismissed → mailbox.registered = true ∨ id ∈ state.dismissed) :
    next.Served id (mailbox.handle .leave) := by
  constructor
  · rw [hattachment]
    exact hserved.written
  · rw [hattachment]
    exact hserved.drained
  · rw [hattachment, hfanned]
    exact hserved.joined_le
  · rw [hattachment, hringed]
    exact hserved.replay
  · rw [hattachment, hfanned]
    rintro (hregistered | hmem) hdropped
    · cases hregistered
    · exact hserved.sent (hdismissed hmem) hdropped

theorem allServed_removeClient (hserved : state.AllServed) (id : ℕ) :
    (state.step (.removeClient id)).AllServed :=
  allServed_of_event (.removeClient id) (fun _ ↦ rfl) rfl rfl hserved (fun _ _ ↦ rfl) rfl rfl rfl
    fun client hclient _ ↦ (hserved client hclient).leave rfl rfl rfl .inr

theorem allServed_shutdown (hnumbered : state.session.Numbered) (hserved : state.AllServed) :
    (state.step .shutdown).AllServed := by
  apply allServed_of_events .shutdown rfl rfl
  intro client hclient
  refine (hserved client hclient).leave rfl rfl rfl ?_
  intro hmem
  simp only [step, List.mem_map, List.mem_filter] at hmem
  obtain ⟨other, ⟨hother, hregistered⟩, hid⟩ := hmem
  rw [hnumbered.eq_of_id hother hclient hid] at hregistered
  exact .inl hregistered

theorem event?_eq_none {action : SessionAction} (hoperation : IsOperation action) (id : ℕ) :
    action.event? id = none ∧ ∀ session : Session, session.admitted action = [] := by
  cases action <;> first | exact hoperation.elim | exact ⟨rfl, fun _ ↦ rfl⟩

theorem allServed_operate (hserved : state.AllServed) {action : SessionAction}
    (hoperation : IsOperation action) : (state.step (.operate action)).AllServed := by
  apply allServed_of_events action rfl ((event?_eq_none hoperation 0).2 _)
  intro client hclient
  rw [(event?_eq_none hoperation client.id).1]
  exact (hserved client hclient).of_same rfl rfl List.prefix_rfl rfl

end ExitRun

end Mosey.Vterm
