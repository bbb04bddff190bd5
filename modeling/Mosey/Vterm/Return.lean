import Mosey.Vterm.Session

/-!
# The return of `Run`

When the child has exited, `Run` shuts the session down, closes the PTY and removes its handlers from
the transport, one by one. Each stream that was dispatched before is bridged by a goroutine of its own,
which joins the session when it gets that far. The shutdown evicts the clients that have joined; nothing
evicts one that joins later.
-/

namespace Mosey.Vterm

open Library Auth

/-- The protocols that attach a client. -/
inductive PTYProto
  | pty
  | ptyResume
  deriving DecidableEq

/-- Where `Run` stands. Its deferred calls remove the handlers in the order control, resume, PTY. -/
inductive RunStage
  | running
  | waited
  | shutDown
  | closed
  | controlUnhandled
  | resumeUnhandled
  | returned
  deriving DecidableEq

/-- The transport has a handler for this protocol. -/
def RunStage.Handles (stage : RunStage) (proto : PTYProto) : Prop :=
  stage ≠ .returned ∧ (proto = .ptyResume → stage ≠ .resumeUnhandled)

instance (stage : RunStage) (proto : PTYProto) : Decidable (stage.Handles proto) :=
  inferInstanceAs (Decidable (_ ∧ (_ → _)))

/-- The registry has not been shut down yet. -/
def RunStage.Open (stage : RunStage) : Prop := stage = .running ∨ stage = .waited

instance (stage : RunStage) : Decidable stage.Open := inferInstanceAs (Decidable (_ ∨ _))

/-- Where the goroutine of a stream stands. -/
inductive BridgeStage
  /-- `handlePTYResume` reads the sequence number. -/
  | header
  | joining
  | attached (id : ℕ)
  | finished
  deriving DecidableEq

def BridgeStage.IsAttached : BridgeStage → Prop
  | .attached _ => True
  | _ => False

instance (stage : BridgeStage) : Decidable stage.IsAttached := by
  induction stage using BridgeStage.casesOn <;> dsimp only [BridgeStage.IsAttached] <;> infer_instance

structure Bridge where
  identity : Identity
  remote : String
  stage : BridgeStage
  deriving DecidableEq

structure ReturnRun where
  session : Session
  bridges : List Bridge
  stage : RunStage

inductive ReturnAction
  /-- The transport calls the handler of a new stream. -/
  | dispatch (proto : PTYProto) (identity : Identity) (remote : String)
  | readResumeSeq (index : ℕ) (valid : Bool)
  | addClient (index : ℕ)
  /-- The bridge of a client ends, with its deferred `removeClient`. -/
  | removeClient (index : ℕ)
  /-- Any other operation on the session. -/
  | operate (action : SessionAction)
  | wait
  | shutdown
  | closePTY
  | unhandleControl
  | unhandleResume
  | unhandlePTY
  deriving DecidableEq

namespace ReturnRun

def setStage (state : ReturnRun) (index : ℕ) (stage : BridgeStage) : ReturnRun :=
  { state with bridges := state.bridges.modify index fun bridge ↦ { bridge with stage := stage } }

def step (state : ReturnRun) : ReturnAction → ReturnRun
  | .dispatch proto identity remote =>
    { state with
      bridges := state.bridges ++ [⟨identity, remote, if proto = .pty then .joining else .header⟩] }
  | .readResumeSeq index valid => state.setStage index (if valid then .joining else .finished)
  | .addClient index =>
    match state.bridges[index]? with
    | none => state
    | some bridge =>
      match state.session.addClientLocked bridge.identity bridge.remote with
      | none => state.setStage index .finished
      | some (added, client, _) => { state.setStage index (.attached client.id) with session := added }
  | .removeClient index =>
    match state.bridges[index]? with
    | some ⟨_, _, .attached id⟩ =>
      { state.setStage index .finished with session := state.session.step (.removeClient id) }
    | _ => state
  | .operate action => { state with session := state.session.step action }
  | .wait => { state with stage := .waited }
  | .shutdown => { state with session := state.session.step .shutdown, stage := .shutDown }
  | .closePTY => { state with stage := .closed }
  | .unhandleControl => { state with stage := .controlUnhandled }
  | .unhandleResume => { state with stage := .resumeUnhandled }
  | .unhandlePTY => { state with stage := .returned }

/-- The operations that are no step of a bridge or of `Run`. -/
def IsOther : SessionAction → Prop
  | .addClient _ _ => False
  | .removeClient _ => False
  | .shutdown => False
  | _ => True

/-- The bridge stands at this stage. -/
def At (state : ReturnRun) (index : ℕ) (stage : BridgeStage) : Prop :=
  ∃ bridge ∈ state.bridges[index]?, bridge.stage = stage

/-- The order in which `Run` and each bridge take their own steps. -/
def allowed (state : ReturnRun) : ReturnAction → Prop
  | .dispatch proto _ _ => state.stage.Handles proto
  | .readResumeSeq index _ => state.At index .header
  | .addClient index => state.At index .joining
  | .removeClient index => ∃ bridge ∈ state.bridges[index]?, bridge.stage.IsAttached
  | .operate action => IsOther action
  | .wait => state.stage = .running
  | .shutdown => state.stage = .waited
  | .closePTY => state.stage = .shutDown
  | .unhandleControl => state.stage = .closed
  | .unhandleResume => state.stage = .controlUnhandled
  | .unhandlePTY => state.stage = .resumeUnhandled

def machine (mode : Mode) : Machine ReturnRun ReturnAction where
  init := ⟨.start mode, [], .running⟩
  allowed := allowed
  step := step

instance (action : SessionAction) : Decidable (IsOther action) := by
  induction action using SessionAction.casesOn <;> dsimp only [IsOther] <;> infer_instance

instance (state : ReturnRun) (index : ℕ) (stage : BridgeStage) : Decidable (state.At index stage) :=
  Option.decidableExistsMem _

instance (mode : Mode) (state : ReturnRun) (action : ReturnAction) :
    Decidable ((machine mode).allowed state action) := by
  induction action using ReturnAction.casesOn with
  | removeClient index => exact Option.decidableExistsMem _
  | _ => dsimp only [machine, allowed]; infer_instance

/-- Every client that was ever admitted has been kicked once `Run` has returned. -/
def Evicted (state : ReturnRun) : Prop :=
  state.stage = .returned → ∀ client ∈ state.session.clients, client.kicked = true

/-- A client is admitted before the shutdown only. -/
def InTime (state : ReturnRun) : ReturnAction → Prop
  | .addClient index => ∀ bridge ∈ state.bridges[index]?,
      (state.session.addClientLocked bridge.identity bridge.remote).isSome → state.stage.Open
  | _ => True

instance (state : ReturnRun) (action : ReturnAction) : Decidable (state.InTime action) := by
  induction action using ReturnAction.casesOn with
  | addClient index => exact Option.decidableForallMem _
  | _ => exact .isTrue trivial

end ReturnRun

namespace SessionClient

theorem registered_offer (client : SessionClient) (chunk : Bytes) :
    (client.offer chunk).registered = client.registered := by
  unfold offer
  split <;> rfl

/-- A client leaves the registry with a kick only. -/
theorem Change.kicked_of_left {session : Session} {action : SessionAction} {client later : SessionClient}
    (hchange : client.Change session action later) (hregistered : client.registered = true)
    (hleft : later.registered = false) : later.kicked = true := by
  cases hchange with
  | removed | dismissed | superseded | kicked => rfl
  | @offered chunk _ =>
    rw [registered_offer, hregistered] at hleft
    cases hleft
  | replayed =>
    rw [registered_offer, hregistered] at hleft
    cases hleft
  | _ => exact absurd (hregistered.symm.trans hleft) (by decide)

end SessionClient

namespace Session

variable {session : Session}

/-- Whoever has left was kicked. -/
def Evicts (session : Session) : Prop :=
  ∀ client ∈ session.clients, client.registered = false → client.kicked = true

/-- Nobody is registered. -/
def Empty (session : Session) : Prop := ∀ client ∈ session.clients, client.registered = false

/-- Whoever leaves in a step is kicked. -/
theorem evicts_step (hevicts : session.Evicts) (action : SessionAction) :
    (session.step action).Evicts := by
  intro client hclient hgone
  rcases mem_step.mp hclient with ⟨before, hbefore, rfl⟩ | hnew
  · have hchange := session.change_after action before
    cases hregistered : before.registered with
    | false => exact hchange.evolves.kicked (hevicts before hbefore hregistered)
    | true => exact hchange.kicked_of_left hregistered hgone
  · obtain ⟨identity, remote, added, size, rfl, hadd⟩ := mem_admitted.mp hnew
    obtain ⟨_, _, _, _, _, _, _, _, _, _, _, _, _, _, hregistered⟩ := addClientLocked_eq_some hadd
    rw [hregistered] at hgone
    cases hgone

theorem empty_step {action : SessionAction} (hempty : session.Empty)
    (hadmitted : session.admitted action = []) :
    (session.step action).Empty := by
  intro client hclient
  rw [mem_step, hadmitted] at hclient
  obtain ⟨before, hbefore, rfl⟩ := hclient.resolve_right List.not_mem_nil
  have hevolves := session.after_evolves action before
  exact Bool.eq_false_iff.mpr fun hregistered ↦
    Bool.eq_false_iff.mp (hempty before hbefore) (hevolves.registered hregistered)

/-- The shutdown empties the registry. -/
theorem empty_shutdown (session : Session) : (session.step .shutdown).Empty := by
  intro client hclient
  rw [clients_step] at hclient
  simp only [admitted, List.append_nil, List.mem_map] at hclient
  obtain ⟨before, -, rfl⟩ := hclient
  simp only [after]
  split
  · rfl
  · next hgone => exact Bool.eq_false_iff.mpr hgone

end Session

namespace ReturnRun

variable {state : ReturnRun}

/-- Whoever has left was kicked, and after the shutdown all have left. -/
structure Cleared (state : ReturnRun) : Prop where
  evicts : state.session.Evicts
  empty : ¬ state.stage.Open → state.session.Empty

/-- Once the registry is cleared, every client has been kicked. -/
theorem Cleared.evicted (hcleared : state.Cleared) : state.Evicted := by
  intro hreturned client hclient
  have hclosed : ¬ state.stage.Open := by
    rw [hreturned]
    decide
  exact hcleared.evicts client hclient (hcleared.empty hclosed client hclient)

/-- A step that admits nobody and stays on its side of the shutdown. -/
theorem Cleared.of_step (hcleared : state.Cleared) {next : ReturnRun} {action : SessionAction}
    (hsession : next.session = state.session.step action) (hadmitted : state.session.admitted action = [])
    (hstage : next.stage = state.stage) : next.Cleared where
  evicts := hsession ▸ Session.evicts_step hcleared.evicts action
  empty hclosed := hsession ▸ Session.empty_step (hcleared.empty (hstage ▸ hclosed)) hadmitted

theorem Cleared.of_same (hcleared : state.Cleared) {next : ReturnRun}
    (hsession : next.session = state.session) (hstage : ¬ next.stage.Open → ¬ state.stage.Open) :
    next.Cleared where
  evicts := hsession ▸ hcleared.evicts
  empty hclosed := hsession ▸ hcleared.empty (hstage hclosed)

theorem not_open {stage : RunStage} (hstage : state.stage = stage) (hclosed : ¬ stage.Open) :
    ¬ state.stage.Open := hstage ▸ hclosed

theorem cleared_addClient (hcleared : state.Cleared) (index : ℕ)
    (hinTime : state.InTime (.addClient index)) :
    (state.step (.addClient index)).Cleared := by
  cases hbridge : state.bridges[index]? with
  | none =>
    simp only [step, hbridge]
    exact hcleared
  | some bridge =>
    cases hadd : state.session.addClientLocked bridge.identity bridge.remote with
    | none =>
      simp only [step, hbridge, hadd]
      exact hcleared.of_same rfl id
    | some result =>
      obtain ⟨added, client, size⟩ := result
      have hopen : state.stage.Open := hinTime bridge (by simp [hbridge]) (by simp [hadd])
      simp only [step, hbridge, hadd]
      refine ⟨?_, fun hclosed ↦ absurd hopen hclosed⟩
      rw [← Session.step_addClient hadd]
      exact Session.evicts_step hcleared.evicts _

/-- While clients join in time, every step keeps the registry cleared after the shutdown. -/
theorem cleared_step (hcleared : state.Cleared) {action : ReturnAction} (hallowed : state.allowed action)
    (hinTime : state.InTime action) : (state.step action).Cleared := by
  cases action with
  | dispatch | readResumeSeq => exact hcleared.of_same rfl id
  | addClient index => exact cleared_addClient hcleared index hinTime
  | removeClient index =>
    obtain ⟨⟨identity, remote, stage⟩, hbridge, hattached⟩ := hallowed
    cases stage with
    | attached id =>
      have hadmitted : state.session.admitted (.removeClient id) = [] := rfl
      simp only [step, Option.mem_def.mp hbridge]
      exact hcleared.of_step rfl hadmitted rfl
    | _ => exact absurd hattached not_false
  | operate action =>
    have hadmitted : state.session.admitted action = [] := by
      cases action with
      | addClient identity remote => exact absurd hallowed not_false
      | _ => rfl
    exact hcleared.of_step rfl hadmitted rfl
  | wait => exact hcleared.of_same rfl fun hclosed ↦ absurd (.inr rfl) hclosed
  | shutdown => exact ⟨Session.evicts_step hcleared.evicts _, fun _ ↦ state.session.empty_shutdown⟩
  | closePTY => exact hcleared.of_same rfl fun _ ↦ not_open hallowed (by decide)
  | unhandleControl => exact hcleared.of_same rfl fun _ ↦ not_open hallowed (by decide)
  | unhandleResume | unhandlePTY => exact hcleared.of_same rfl fun _ ↦ not_open hallowed (by decide)

/-- In every run in which clients are admitted before the shutdown only, all of them have been kicked
once `Run` has returned. -/
theorem evicted_of_inTime {mode : Mode} (hreach : ((machine mode).restrict InTime).Reachable state) :
    state.Evicted := by
  apply Cleared.evicted
  apply hreach.invariant (P := Cleared)
  · exact ⟨fun _ hclient ↦ absurd hclient List.not_mem_nil, fun hclosed ↦ absurd (.inl rfl) hclosed⟩
  · intro before action _ hcleared hallowed
    exact cleared_step hcleared hallowed.1 hallowed.2

section Example

abbrev exampleReturn : Machine ReturnRun ReturnAction := machine .multiWrite

/-- One client attaches before the child exits, and a stream with a bad header is closed. -/
def exampleTimely : List ReturnAction :=
  [.dispatch .pty exampleWriter "alpha", .addClient 0, .dispatch .ptyResume exampleWriter "beta", .wait,
    .readResumeSeq 1 false, .shutdown, .closePTY, .removeClient 0, .unhandleControl, .unhandleResume,
    .unhandlePTY]

theorem evicted_example :
    (exampleReturn.run exampleReturn.init exampleTimely).session.clients.length = 1 ∧
      ∀ client ∈ (exampleReturn.run exampleReturn.init exampleTimely).session.clients,
        client.kicked = true := by
  have hlegal : (exampleReturn.restrict InTime).Legal exampleReturn.init exampleTimely :=
    Machine.legal_restrict _ (by decide +kernel) (by decide +kernel)
  exact ⟨by decide +kernel,
    evicted_of_inTime (Machine.Reachable.init.run hlegal) (by decide +kernel)⟩

/-- The stream is dispatched before the shutdown and joins behind it. -/
def exampleLate : List ReturnAction :=
  [.dispatch .pty exampleWriter "alpha", .wait, .shutdown, .addClient 0, .closePTY, .unhandleControl,
    .unhandleResume, .unhandlePTY]

/-- A client that is admitted after the shutdown is never kicked. -/
theorem not_evicted_of_late :
    exampleReturn.Legal exampleReturn.init exampleLate ∧
      (exampleReturn.run exampleReturn.init exampleLate).stage = .returned ∧
      ∃ client ∈ (exampleReturn.run exampleReturn.init exampleLate).session.clients,
        client.kicked = false := by
  exact ⟨by decide +kernel, by decide +kernel, by decide +kernel⟩

end Example

end ReturnRun

end Mosey.Vterm
