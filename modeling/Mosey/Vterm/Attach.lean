import Mosey.Vterm.Resume
import Mosey.Vterm.Session

/-!
# Attaching while output flows

The pump writes a chunk to the ring and then broadcasts it. An attach registers the client, reads its
replay from the ring and puts it on the client's channel. Each of these is a step under a lock of its
own, and nothing orders the steps of one side among those of the other: a chunk that is in the ring but
not yet broadcast can reach the client twice, and a live chunk can overtake the replay. The numbers of the
ring are those of the source for the first `2 ^ 64 - 2` bytes.
-/

namespace Mosey.Vterm

open Library Auth Streambuf

/-- Where `bridgeClient` stands; `start` counts the bytes of the stream before the replay position. -/
inductive AttachStage
  | away
  | registered (id : ℕ)
  | replaying (id start : ℕ) (replay : Bytes)
  | attached (id start : ℕ)
  deriving DecidableEq

/-- One attach beside the pump. The stream is everything that was written to the ring. -/
structure AttachRun where
  session : Session
  ring : OutputRing
  stream : Bytes
  /-- The chunk that is written to the ring and not yet broadcast. -/
  pending : Option Bytes
  stage : AttachStage

inductive AttachAction
  | write (chunk : Bytes)
  | broadcast
  | addClient (identity : Identity) (remote : String)
  | read
  | enqueue
  | receive

/-- How many bytes of the stream lie before what `From` is asked for. -/
def replayPosition (ring : OutputRing) (fromSeq : ℕ) : ℕ :=
  if fromSeq = 0 then ring.firstSeq - 1 else min (fromSeq - 1) (ring.nextSeq - 1)

namespace AttachRun

def clientID (state : AttachRun) : Option ℕ :=
  match state.stage with
  | .away => none
  | .registered id => some id
  | .replaying id _ _ => some id
  | .attached id _ => some id

/-- A replay that was read and is not yet enqueued. -/
def waiting (state : AttachRun) : Bytes :=
  match state.stage with
  | .replaying _ _ replay => replay
  | _ => []

/-- The channel of the client is not full. -/
def Room (state : AttachRun) : Prop :=
  ∀ client ∈ state.session.clients, state.clientID = some client.id → client.outCh.HasRoom

instance (state : AttachRun) : Decidable state.Room :=
  inferInstanceAs (Decidable (∀ client ∈ state.session.clients, _))

def step (fromSeq : ℕ) (state : AttachRun) : AttachAction → AttachRun
  | .write chunk =>
    { state with
      ring := (state.ring.write chunk).1
      stream := state.stream ++ chunk
      pending := some chunk }
  | .broadcast =>
    match state.pending with
    | none => state
    | some chunk => { state with session := state.session.broadcast chunk, pending := none }
  | .addClient identity remote =>
    match state.session.addClientLocked identity remote with
    | none => state
    | some (added, client, _) => { state with session := added, stage := .registered client.id }
  | .read =>
    match state.stage with
    | .registered id =>
      { state with
        stage := .replaying id (replayPosition state.ring fromSeq) (bridgeReplay state.ring fromSeq) }
    | _ => state
  | .enqueue =>
    match state.stage with
    | .replaying id start replay =>
      { state with
        session := if replay = [] then state.session
          else state.session.onClient id fun client ↦ client.offer replay
        stage := .attached id start }
    | _ => state
  | .receive =>
    match state.clientID with
    | none => state
    | some id => { state with session := state.session.receive id }

/-- The pump handles one chunk after the other, the attach takes its three steps once, the channel never
fills and the ring has not evicted what the client asks for. -/
def allowed (fromSeq : ℕ) (state : AttachRun) : AttachAction → Prop
  | .write chunk => chunk ≠ [] ∧ state.pending = none
  | .broadcast => state.Room
  | .addClient _ _ => state.stage = .away
  | .read => fromSeq = 0 ∨ state.ring.firstSeq ≤ fromSeq
  | .enqueue => state.Room
  | .receive => True

def machine (session : Session) (capacity : ℤ) (fromSeq : ℕ) : Machine AttachRun AttachAction where
  init := ⟨session, .new capacity, [], none, .away⟩
  allowed := allowed fromSeq
  step := step fromSeq

/-- The replay is read while every chunk in the ring was broadcast before the client registered, and no
chunk is broadcast while a replay waits to be enqueued. -/
def Ordered (state : AttachRun) : AttachAction → Prop
  | .read => state.pending = none ∧
      ∀ client ∈ state.session.clients, state.clientID = some client.id → client.outCh.sent = []
  | .broadcast => state.waiting = []
  | _ => True

instance (session : Session) (capacity : ℤ) (fromSeq : ℕ) (state : AttachRun) (action : AttachAction) :
    Decidable ((machine session capacity fromSeq).allowed state action) := by
  induction action using AttachAction.casesOn <;> dsimp only [machine, allowed] <;> infer_instance

instance (state : AttachRun) (action : AttachAction) : Decidable (state.Ordered action) := by
  induction action using AttachAction.casesOn <;> dsimp only [Ordered] <;> infer_instance

variable {state : AttachRun}

/-- Behind what the client was sent comes the chunk that is not yet broadcast, and a replay that waits
comes before anything else. -/
structure Follows (state : AttachRun) (id start : ℕ) (replay : Bytes) (client : SessionClient) :
    Prop where
  last : ∃ others, state.session.clients = others ++ [client]
  is_id : client.Is id
  waits : replay ≠ [] → client.outCh.sent = []
  start_le : start ≤ state.stream.length
  bytes : replay ++ client.outCh.sent.flatten ++ state.pending.getD [] = state.stream.drop start

/-- What holds in each stage of the attach. -/
inductive StageHolds (state : AttachRun) : Prop
  | away : state.stage = .away → StageHolds state
  | registered {id : ℕ} {others : List SessionClient} {client : SessionClient} :
      state.stage = .registered id → state.session.clients = others ++ [client] → client.Is id →
      StageHolds state
  | replaying {id start : ℕ} {replay : Bytes} {client : SessionClient} :
      state.stage = .replaying id start replay → state.Follows id start replay client →
      StageHolds state
  | attached {id start : ℕ} {client : SessionClient} :
      state.stage = .attached id start → state.Follows id start [] client → StageHolds state

variable {id start : ℕ} {replay : Bytes} {client : SessionClient} {session : Session} {capacity : ℤ}

/-- The replay is the stream from the position that the client asked for. -/
theorem replay_eq_drop {ring : OutputRing} {stream : Bytes} (hretains : ring.Retains stream)
    {fromSeq : ℕ} (hkept : fromSeq = 0 ∨ ring.firstSeq ≤ fromSeq) :
    bridgeReplay ring fromSeq = stream.drop (replayPosition ring fromSeq) ∧
      replayPosition ring fromSeq ≤ stream.length := by
  have hnext := hretains.nextSeq_eq
  have hfirst := hretains.firstSeq_le
  unfold replayPosition
  by_cases hzero : fromSeq = 0
  · rw [if_pos hzero, hzero, bridgeReplay_zero]
    exact ⟨hretains.data_eq, by omega⟩
  · rw [if_neg hzero, bridgeReplay_of_le hretains (hkept.resolve_left hzero), hnext]
    refine ⟨?_, by omega⟩
    rcases Nat.le_total (fromSeq - 1) stream.length with hle | hge
    · rw [Nat.add_sub_cancel, Nat.min_eq_left hle]
    · rw [Nat.add_sub_cancel, Nat.min_eq_right hge, List.drop_length, List.drop_eq_nil_iff]
      exact hge

/-- A chunk that is only in the ring is pending for the client. -/
theorem Follows.write (hfollows : state.Follows id start replay client) (hpending : state.pending = none)
    (fromSeq : ℕ) (chunk : Bytes) :
    (state.step fromSeq (.write chunk)).Follows id start replay client := by
  have hbytes := hfollows.bytes
  rw [hpending, Option.getD_none, List.append_nil] at hbytes
  refine ⟨hfollows.last, hfollows.is_id, hfollows.waits, ?_, ?_⟩
  · simp only [step, List.length_append]
    exact Nat.le_add_right_of_le hfollows.start_le
  · simp only [step, Option.getD_some]
    rw [hbytes, List.drop_append_of_le_length hfollows.start_le]

/-- A chunk that is broadcast reaches the client behind what it has. -/
theorem Follows.broadcast
    (hfollows : state.Follows id start [] client) (hroom : client.outCh.HasRoom) (fromSeq : ℕ) :
    ∃ later, (state.step fromSeq .broadcast).Follows id start [] later := by
  cases hpending : state.pending with
  | none => exact ⟨client, by simpa [step, hpending] using hfollows⟩
  | some chunk =>
    obtain ⟨others, hclients⟩ := hfollows.last
    obtain ⟨hsent, hid, hregistered⟩ := SessionClient.offer_of_hasRoom hroom chunk
    have hbytes := hfollows.bytes
    rw [hpending, Option.getD_some, List.nil_append] at hbytes
    refine ⟨client.offer chunk, ⟨?_, ?_, by simp, ?_, ?_⟩⟩
    · simp [step, hpending, Session.broadcast, Session.onAll, hclients, hfollows.is_id.1]
    · exact ⟨hregistered.trans hfollows.is_id.1, hid.trans hfollows.is_id.2⟩
    · simpa [step, hpending] using hfollows.start_le
    · simp only [step, hpending, hsent]
      simpa using hbytes

/-- The replay goes to the client in front of what is broadcast after it. -/
theorem Follows.enqueue
    (hfollows : state.Follows id start replay client) (hroom : client.outCh.HasRoom) (fromSeq : ℕ)
    (hstage : state.stage = .replaying id start replay) :
    ∃ later, (state.step fromSeq .enqueue).Follows id start [] later := by
  obtain ⟨others, hclients⟩ := hfollows.last
  by_cases hreplay : replay = []
  · refine ⟨client, ⟨?_, hfollows.is_id, by simp, ?_, ?_⟩⟩
    · exact ⟨others, by simpa [step, hstage, hreplay] using hclients⟩
    · simpa [step, hstage] using hfollows.start_le
    · simpa [step, hstage, hreplay] using hfollows.bytes
  · obtain ⟨hsent, hid, hregistered⟩ := SessionClient.offer_of_hasRoom hroom replay
    have hbytes := hfollows.bytes
    rw [hfollows.waits hreplay] at hbytes
    refine ⟨client.offer replay, ⟨?_, ?_, by simp, ?_, ?_⟩⟩
    · simp [step, hstage, hreplay, Session.onClient, hclients, hfollows.is_id]
    · exact ⟨hregistered.trans hfollows.is_id.1, hid.trans hfollows.is_id.2⟩
    · simpa [step, hstage] using hfollows.start_le
    · simp only [step, hstage, hsent, hfollows.waits hreplay]
      simpa using hbytes

/-- What the output goroutine takes was sent before. -/
theorem Follows.receive
    (hfollows : state.Follows id start replay client) (hclient : state.clientID = some id)
    (fromSeq : ℕ) : ∃ later, (state.step fromSeq .receive).Follows id start replay later := by
  obtain ⟨others, hclients⟩ := hfollows.last
  refine ⟨{ client with outCh := client.outCh.receive }, ⟨?_, hfollows.is_id, ?_, ?_, ?_⟩⟩
  · simp [step, hclient, Session.receive, hclients, hfollows.is_id.2]
  · simpa using hfollows.waits
  · simpa [step, hclient] using hfollows.start_le
  · simpa [step, hclient] using hfollows.bytes

theorem hasRoom_of_room (hroom : state.Room) (hclient : state.clientID = some id)
    (hlast : ∃ others, state.session.clients = others ++ [client])
    (his : client.Is id) : client.outCh.HasRoom := by
  obtain ⟨others, hclients⟩ := hlast
  apply hroom client (by simp [hclients])
  rw [hclient, his.2]

variable {fromSeq : ℕ} {action : AttachAction}

theorem writtenBy_step (hwritten : OutputRing.WrittenBy capacity state.ring state.stream)
    (action : AttachAction) : OutputRing.WrittenBy capacity (state.step fromSeq action).ring
      (state.step fromSeq action).stream := by
  cases action with
  | write chunk => exact hwritten.write chunk
  | broadcast => cases hpending : state.pending <;> simpa [step, hpending] using hwritten
  | addClient identity remote =>
    cases hadd : state.session.addClientLocked identity remote <;> simpa [step, hadd] using hwritten
  | read | enqueue => cases hstage : state.stage <;> simpa [step, hstage] using hwritten
  | receive => cases hclient : state.clientID <;> simpa [step, hclient] using hwritten

/-- In every run the ring is what its writes have made it. -/
theorem writtenBy_of_reachable (hreach : (machine session capacity fromSeq).Reachable state) :
    OutputRing.WrittenBy capacity state.ring state.stream :=
  hreach.invariant (P := fun state ↦ OutputRing.WrittenBy capacity state.ring state.stream) ⟨[], rfl, rfl⟩
    fun _ action _ hwritten _ ↦ writtenBy_step hwritten action

/-- The ring is only written to, so its replays are those of the source for the first `2 ^ 64 - 2` bytes. -/
theorem replay_eq_source (hreach : (machine session capacity fromSeq).Reachable state)
    (hbound : state.stream.length + 1 < 2 ^ 64) :
    ∃ writes, state.stream = writes.flatten ∧ ∀ since : UInt64,
      bridgeReplay state.ring since.toNat = bridgeReplay64 (.written capacity writes) since :=
  bridgeReplay_eq_source (writtenBy_of_reachable hreach) hbound

theorem stage_broadcast (state : AttachRun) (fromSeq : ℕ) :
    (state.step fromSeq .broadcast).stage = state.stage := by
  cases hpending : state.pending <;> simp [step, hpending]

theorem stage_receive (state : AttachRun) (fromSeq : ℕ) :
    (state.step fromSeq .receive).stage = state.stage := by
  cases hclient : state.clientID <;> simp [step, hclient]

theorem is_offer (his : client.Is id) (chunk : Bytes) :
    (client.offer chunk).Is id := by
  unfold SessionClient.offer
  split <;> exact his

theorem stageHolds_broadcast (hholds : state.StageHolds) (hroom : state.Room)
    (hordered : state.Ordered .broadcast) : (state.step fromSeq .broadcast).StageHolds := by
  cases hholds with
  | away hstage => exact .away ((stage_broadcast state fromSeq).trans hstage)
  | @registered id others client hstage hclients his =>
    have hstage' := (stage_broadcast state fromSeq).trans hstage
    cases hpending : state.pending with
    | none =>
      have hsame : state.step fromSeq .broadcast = state := by simp [step, hpending]
      rw [hsame]
      exact .registered hstage hclients his
    | some chunk =>
      have hlast : (state.step fromSeq .broadcast).session.clients =
          others.map (fun other ↦ if other.registered then other.offer chunk else other) ++
            [client.offer chunk] := by
        simp [step, hpending, Session.broadcast, Session.onAll, hclients, his.1]
      exact .registered hstage' hlast (is_offer his chunk)
  | @replaying id start replay client hstage hfollows =>
    obtain rfl : replay = [] := by simpa [Ordered, waiting, hstage] using hordered
    have hclient : state.clientID = some id := by simp [clientID, hstage]
    obtain ⟨later, hlater⟩ :=
      hfollows.broadcast (hasRoom_of_room hroom hclient hfollows.last hfollows.is_id) fromSeq
    exact .replaying ((stage_broadcast state fromSeq).trans hstage) hlater
  | @attached id start client hstage hfollows =>
    have hclient : state.clientID = some id := by simp [clientID, hstage]
    obtain ⟨later, hlater⟩ :=
      hfollows.broadcast (hasRoom_of_room hroom hclient hfollows.last hfollows.is_id) fromSeq
    exact .attached ((stage_broadcast state fromSeq).trans hstage) hlater

/-- A client that is admitted is the last one and has been sent nothing. -/
theorem stageHolds_addClient (hstage : state.stage = .away) (identity : Identity) (remote : String) :
    (state.step fromSeq (.addClient identity remote)).StageHolds := by
  cases hadd : state.session.addClientLocked identity remote with
  | none => exact .away (by simpa [step, hadd] using hstage)
  | some result =>
    obtain ⟨added, client, size⟩ := result
    obtain ⟨_, _, _, _, _, hclients, _, _, _, _, _, _, _, _, hregistered⟩ :=
      Session.addClientLocked_eq_some hadd
    have hstage' : (state.step fromSeq (.addClient identity remote)).stage =
        .registered client.id := by
      simp [step, hadd]
    have hlast : (state.step fromSeq (.addClient identity remote)).session.clients =
        state.session.clients.map (state.session.after (.addClient identity remote)) ++ [client] := by
      simpa [step, hadd] using hclients
    exact .registered hstage' hlast ⟨hregistered, rfl⟩

/-- Read while nothing is pending, the replay ends where the broadcasts begin. -/
theorem stageHolds_read (hretains : state.ring.Retains state.stream) (hholds : state.StageHolds)
    (hkept : fromSeq = 0 ∨ state.ring.firstSeq ≤ fromSeq) (hordered : state.Ordered .read) :
    (state.step fromSeq .read).StageHolds := by
  cases hholds with
  | away hstage => exact .away (by simp [step, hstage])
  | @registered id others client hstage hclients his =>
    obtain ⟨hpending, hempty⟩ := hordered
    have hsent : client.outCh.sent = [] :=
      hempty client (by simp [hclients]) (by simp [clientID, hstage, his.2])
    obtain ⟨hreplay, hle⟩ := replay_eq_drop hretains hkept
    have hstage' : (state.step fromSeq .read).stage = .replaying id
        (replayPosition state.ring fromSeq) (bridgeReplay state.ring fromSeq) := by
      simp [step, hstage]
    have hfollows : (state.step fromSeq .read).Follows id (replayPosition state.ring fromSeq)
        (bridgeReplay state.ring fromSeq) client := by
      refine ⟨⟨others, by simp [step, hstage, hclients]⟩, his, fun _ ↦ hsent, ?_, ?_⟩
      · simpa [step, hstage] using hle
      · simpa [step, hstage, hsent, hpending] using hreplay
    exact .replaying hstage' hfollows
  | replaying hstage hfollows =>
    have hsame : state.step fromSeq .read = state := by simp [step, hstage]
    rw [hsame]
    exact .replaying hstage hfollows
  | attached hstage hfollows =>
    have hsame : state.step fromSeq .read = state := by simp [step, hstage]
    rw [hsame]
    exact .attached hstage hfollows

theorem stageHolds_enqueue (hholds : state.StageHolds) (hroom : state.Room) :
    (state.step fromSeq .enqueue).StageHolds := by
  cases hholds with
  | away hstage => exact .away (by simp [step, hstage])
  | registered hstage hclients his =>
    have hsame : state.step fromSeq .enqueue = state := by simp [step, hstage]
    rw [hsame]
    exact .registered hstage hclients his
  | @replaying id start replay client hstage hfollows =>
    have hclient : state.clientID = some id := by simp [clientID, hstage]
    obtain ⟨later, hlater⟩ := hfollows.enqueue
      (hasRoom_of_room hroom hclient hfollows.last hfollows.is_id) fromSeq hstage
    exact .attached (by simp [step, hstage]) hlater
  | attached hstage hfollows =>
    have hsame : state.step fromSeq .enqueue = state := by simp [step, hstage]
    rw [hsame]
    exact .attached hstage hfollows

theorem stageHolds_receive (hholds : state.StageHolds) :
    (state.step fromSeq .receive).StageHolds := by
  have hstage' := stage_receive state fromSeq
  cases hholds with
  | away hstage => exact .away (hstage'.trans hstage)
  | @registered id others client hstage hclients his =>
    have hclient : state.clientID = some id := by simp [clientID, hstage]
    have hlast : (state.step fromSeq .receive).session.clients =
        others.map (fun other ↦
          if other.id = id then { other with outCh := other.outCh.receive } else other) ++
          [{ client with outCh := client.outCh.receive }] := by
      simp [step, hclient, Session.receive, hclients, his.2]
    exact .registered (hstage'.trans hstage) hlast his
  | @replaying id start replay client hstage hfollows =>
    obtain ⟨later, hlater⟩ := hfollows.receive (by simp [clientID, hstage]) fromSeq
    exact .replaying (hstage'.trans hstage) hlater
  | @attached id start client hstage hfollows =>
    obtain ⟨later, hlater⟩ := hfollows.receive (by simp [clientID, hstage]) fromSeq
    exact .attached (hstage'.trans hstage) hlater

/-- One action in order keeps the stage of the attach. -/
theorem stageHolds_step (hretains : state.ring.Retains state.stream) (hholds : state.StageHolds)
    (hallowed : allowed fromSeq state action) (hordered : state.Ordered action) :
    (state.step fromSeq action).StageHolds := by
  cases action with
  | write chunk =>
    cases hholds with
    | away hstage => exact .away hstage
    | registered hstage hclients his => exact .registered hstage hclients his
    | replaying hstage hfollows =>
      exact .replaying hstage (hfollows.write hallowed.2 fromSeq chunk)
    | attached hstage hfollows =>
      exact .attached hstage (hfollows.write hallowed.2 fromSeq chunk)
  | broadcast => exact stageHolds_broadcast hholds hallowed hordered
  | addClient identity remote => exact stageHolds_addClient hallowed identity remote
  | read => exact stageHolds_read hretains hholds hallowed hordered
  | enqueue => exact stageHolds_enqueue hholds hallowed
  | receive => exact stageHolds_receive hholds

theorem stageHolds_of_reachable
    (hreach : ((machine session capacity fromSeq).restrict Ordered).Reachable state) :
    state.StageHolds := by
  refine hreach.invariant (P := StageHolds) (.away rfl) ?_
  rintro before action hbefore hholds ⟨hallowed, hordered⟩
  exact stageHolds_step (writtenBy_of_reachable hbefore.of_restrict).retains hholds hallowed hordered

end AttachRun

/-- In whatever order the steps of the pump and of an attach come, as long as they are `Ordered`: the
client is sent the stream from the replay position on, up to the chunk that is still to be broadcast. -/
theorem attach_delivers_once (session : Session) (capacity : ℤ) (fromSeq : ℕ) {state : AttachRun}
    {id start : ℕ}
    (hreach : ((AttachRun.machine session capacity fromSeq).restrict AttachRun.Ordered).Reachable state)
    (hattached : state.stage = .attached id start) :
    ∃ client ∈ state.session.clients, client.Is id ∧
      client.outCh.sent.flatten ++ state.pending.getD [] = state.stream.drop start := by
  cases AttachRun.stageHolds_of_reachable hreach with
  | away hstage => simp [hattached] at hstage
  | registered hstage => simp [hattached] at hstage
  | replaying hstage => simp [hattached] at hstage
  | @attached _ _ client hstage hfollows =>
    obtain ⟨rfl, rfl⟩ : id = _ ∧ start = _ := by simpa [hattached] using hstage
    obtain ⟨others, hclients⟩ := hfollows.last
    exact ⟨client, by simp [hclients], hfollows.is_id, hfollows.bytes⟩

section Example

/-- A fresh attach to a session without other clients, with a ring of 16 bytes. -/
abbrev exampleAttach : Machine AttachRun AttachAction := AttachRun.machine (.start .supersede) 16 0

/-- A chunk comes between the replay and its way onto the channel. -/
def exampleOrdered : List AttachAction :=
  [.write [97], .broadcast, .addClient exampleWriter "alpha", .read, .write [98], .enqueue, .broadcast]

theorem attach_delivers_once_example :
    ∃ client ∈ (exampleAttach.run exampleAttach.init exampleOrdered).session.clients,
      client.Is 1 ∧ client.outCh.sent.flatten ++ [] = [97, 98] := by
  have hlegal : (exampleAttach.restrict AttachRun.Ordered).Legal exampleAttach.init exampleOrdered :=
    Machine.legal_restrict _ (by decide) (by decide)
  exact attach_delivers_once (.start .supersede) 16 0 (Machine.Reachable.init.run hlegal) rfl

/-- The chunk is in the ring when the client reads its replay, and broadcast afterwards. -/
def exampleTwice : List AttachAction :=
  [.write [97], .addClient exampleWriter "alpha", .read, .enqueue, .broadcast]

/-- A chunk in the ring and not yet broadcast when the replay is read comes twice. -/
theorem attach_delivers_twice :
    exampleAttach.Legal exampleAttach.init exampleTwice ∧
      (exampleAttach.run exampleAttach.init exampleTwice).stage = .attached 1 0 ∧
      (exampleAttach.run exampleAttach.init exampleTwice).pending = none ∧
      (exampleAttach.run exampleAttach.init exampleTwice).stream = [97] ∧
      (exampleAttach.run exampleAttach.init exampleTwice).session.clients.map
        (fun client ↦ client.outCh.sent.flatten) = [[97, 97]] := by
  decide +kernel

end Example

end Mosey.Vterm
