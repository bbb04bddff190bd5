import Mosey.Vterm.Session

/-!
# The input pumps

Each client has a goroutine that reads a chunk from its stream, samples `canWrite` under the session
lock and writes the chunk to the PTY after the lock is released. The operations that take a permission
away do not wait for a chunk that was sampled before them, and the pump never looks at `done`.
-/

namespace Mosey.Vterm

open Library Auth

/-- Where the input pump of a client stands. -/
inductive PumpStage
  | idle
  | read (chunk : Bytes)
  | sampled (chunk : Bytes) (canWrite : Bool)
  /-- The stream failed, and the goroutine has returned. -/
  | stopped
  deriving DecidableEq

/-- A session with the pumps of its clients. Of the chunks on the PTY it is known whose they were. -/
structure InputRun where
  session : Session
  pumps : ℕ → PumpStage
  pty : List (ℕ × Bytes)

inductive InputAction
  | session (action : SessionAction)
  | read (id : ℕ) (chunk : Bytes)
  | sample (id : ℕ)
  | write (id : ℕ)
  | fail (id : ℕ)
  deriving DecidableEq

/-- `client.canWrite` as the pump reads it, whether or not the client is still in the registry. -/
def Session.samples (session : Session) (id : ℕ) : Bool :=
  session.clients.any fun client ↦ client.id = id && client.canWrite

namespace InputRun

def step (state : InputRun) : InputAction → InputRun
  | .session action => { state with session := state.session.step action }
  | .read id chunk => { state with pumps := Function.update state.pumps id (.read chunk) }
  | .sample id =>
    match state.pumps id with
    | .read chunk =>
      { state with
        pumps := Function.update state.pumps id (.sampled chunk (state.session.samples id)) }
    | _ => state
  | .write id =>
    match state.pumps id with
    | .sampled chunk canWrite =>
      { state with
        pumps := Function.update state.pumps id .idle
        pty := if canWrite then state.pty ++ [(id, chunk)] else state.pty }
    | _ => state
  | .fail id => { state with pumps := Function.update state.pumps id .stopped }

/-- A pump reads, or finds its stream failed, when it is done with the chunk before. -/
def allowed (state : InputRun) : InputAction → Prop
  | .session _ => True
  | .read id chunk => chunk ≠ [] ∧ state.pumps id = .idle ∧
      ∃ client ∈ state.session.clients, client.id = id
  | .sample _ => True
  | .write _ => True
  | .fail id => state.pumps id = .idle

def machine (mode : Mode) : Machine InputRun InputAction where
  init := ⟨.start mode, fun _ ↦ .idle, []⟩
  allowed := allowed
  step := step

/-- The pump is about to write to the PTY. -/
def writing (state : InputRun) (id : ℕ) : Bool :=
  match state.pumps id with
  | .sampled _ canWrite => canWrite
  | _ => false

/-- The operation clears the permission of the client or evicts it. -/
def Bars (session : Session) (client : SessionClient) : SessionAction → Prop
  | .addClient _ _ => session.mode = .supersede ∧ client.registered = true
  | .removeClient id => client.Is id
  | .kickClient id => client.Is id
  | .promoteClient id => (session.client? id).isSome = true ∧ session.mode = .primaryObserver ∧
      client.Is session.writerID ∧ ¬ client.Is id
  | .demoteRemote remote => ∃ found ∈ session.clientByRemoteIDLocked remote, client.Is found.id
  | .shutdown => client.registered = true
  | _ => False

/-- No operation clears the permission of a client or evicts it while its pump is writing, and no pump
samples the permission that an evicted client still has. -/
def Settled (state : InputRun) : InputAction → Prop
  | .session action => ∀ client ∈ state.session.clients, Bars state.session client action →
      state.writing client.id = false
  | .sample id => ∀ client ∈ state.session.clients, client.id = id → client.kicked = true →
      client.canWrite = false
  | _ => True

instance (mode : Mode) (state : InputRun) (action : InputAction) :
    Decidable ((machine mode).allowed state action) := by
  induction action using InputAction.casesOn <;> dsimp only [machine, allowed] <;> infer_instance

instance (session : Session) (client : SessionClient) (action : SessionAction) :
    Decidable (Bars session client action) := by
  induction action using SessionAction.casesOn <;> dsimp only [Bars] <;> infer_instance

instance (state : InputRun) (action : InputAction) : Decidable (state.Settled action) := by
  induction action using InputAction.casesOn <;> dsimp only [Settled] <;> infer_instance

variable {state : InputRun} {id : ℕ}

/-- The client may write and is not evicted. -/
structure Permitted (client : SessionClient) : Prop where
  canWrite : client.canWrite = true
  not_kicked : client.kicked = false

/-- Whoever is writing is permitted to. -/
def WritersPermitted (state : InputRun) : Prop :=
  ∀ id, state.writing id = true → ∃ client ∈ state.session.clients, client.id = id ∧ Permitted client

theorem permitted_offer {client : SessionClient} (hpermitted : Permitted client) (chunk : Bytes) :
    Permitted (client.offer chunk) := by
  unfold SessionClient.offer
  split <;> exact ⟨hpermitted.canWrite, hpermitted.not_kicked⟩

/-- An operation that does not bar a client leaves it its permission. -/
theorem permitted_after {session : Session} {client : SessionClient} {action : SessionAction}
    (hbars : ¬ Bars session client action) (hpermitted : Permitted client) :
    Permitted (session.after action client) := by
  have hchange := session.change_after action client
  generalize session.after action client = later at hchange ⊢
  cases hchange with
  | superseded hmode hregistered => exact absurd ⟨hmode, hregistered⟩ hbars
  | removed his => exact absurd his hbars
  | kicked his => exact absurd his hbars
  | promoted _ => exact ⟨rfl, hpermitted.not_kicked⟩
  | unseated hfound hmode hseat hother => exact absurd ⟨hfound, hmode, hseat, hother⟩ hbars
  | demoted hfound his => exact absurd ⟨_, hfound, his⟩ hbars
  | @offered chunk _ => exact permitted_offer hpermitted chunk
  | @replayed _ replay => exact permitted_offer hpermitted replay
  | dismissed hregistered => exact absurd hregistered hbars
  | _ => exact ⟨hpermitted.canWrite, hpermitted.not_kicked⟩

theorem writing_update {stage : PumpStage} {pty : List (ℕ × Bytes)} {other : ℕ}
    (hwriting : InputRun.writing ⟨state.session, Function.update state.pumps id stage, pty⟩ other =
      true) :
    (other = id ∧ ∃ chunk, stage = .sampled chunk true) ∨ state.writing other = true := by
  by_cases hother : other = id
  · subst hother
    left
    cases stage <;> simp_all [writing]
  · right
    simpa [writing, hother] using hwriting

variable {action : InputAction}

/-- A pump comes to write by sampling a permission. -/
theorem writing_of_step (hwriting : (state.step action).writing id = true) :
    state.writing id = true ∨ action = .sample id ∧ state.session.samples id = true := by
  cases action with
  | session action => exact .inl hwriting
  | read reader chunk =>
    rcases writing_update hwriting with ⟨_, _, hstage⟩ | hbefore
    · cases hstage
    · exact .inl hbefore
  | sample sampler =>
    simp only [step] at hwriting
    split at hwriting
    · rcases writing_update hwriting with ⟨rfl, _, hstage⟩ | hbefore
      · exact .inr ⟨rfl, (PumpStage.sampled.inj hstage).2⟩
      · exact .inl hbefore
    · exact .inl hwriting
  | write writer =>
    simp only [step] at hwriting
    split at hwriting
    · rcases writing_update hwriting with ⟨_, _, hstage⟩ | hbefore
      · cases hstage
      · exact .inl hbefore
    · exact .inl hwriting
  | fail failed =>
    rcases writing_update hwriting with ⟨_, _, hstage⟩ | hbefore
    · cases hstage
    · exact .inl hbefore

theorem session_step_of_pump (hpump : ∀ operation, action ≠ .session operation) :
    (state.step action).session = state.session := by
  cases action with
  | session operation => exact absurd rfl (hpump operation)
  | read reader chunk => rfl
  | sample sampler =>
    simp only [step]
    split <;> rfl
  | write writer =>
    simp only [step]
    split <;> rfl
  | fail failed => rfl

/-- In a settled step nobody writes without the permission. -/
theorem writersPermitted_step (hwriters : state.WritersPermitted) (hsettled : state.Settled action) :
    (state.step action).WritersPermitted := by
  intro id hwriting
  by_cases hpump : ∀ operation, action ≠ .session operation
  · rw [session_step_of_pump hpump]
    rcases writing_of_step hwriting with hbefore | ⟨rfl, hsamples⟩
    · exact hwriters id hbefore
    · obtain ⟨client, hclient, hsampled⟩ := List.any_eq_true.mp hsamples
      obtain ⟨hid, hcanWrite⟩ : client.id = id ∧ client.canWrite = true := by simpa using hsampled
      refine ⟨client, hclient, hid, hcanWrite, Bool.eq_false_iff.mpr fun hkicked ↦ ?_⟩
      rw [hsettled client hclient hid hkicked] at hcanWrite
      cases hcanWrite
  · obtain ⟨operation, rfl⟩ : ∃ operation, action = .session operation := by simpa using hpump
    obtain ⟨client, hclient, hid, hpermitted⟩ := hwriters id hwriting
    refine ⟨state.session.after operation client, ?_, ?_, ?_⟩
    · exact Session.mem_step.mpr (.inl ⟨client, hclient, rfl⟩)
    · exact (state.session.after_evolves operation client).id.trans hid
    · apply permitted_after _ hpermitted
      intro hbars
      have hidle := hsettled client hclient hbars
      rw [hid] at hidle
      exact Bool.false_ne_true (hidle.symm.trans hwriting)

theorem numbered_step (hnumbered : state.session.Numbered) (action : InputAction) :
    (state.step action).session.Numbered := by
  by_cases hpump : ∀ operation, action ≠ .session operation
  · rw [session_step_of_pump hpump]
    exact hnumbered
  · obtain ⟨operation, rfl⟩ : ∃ operation, action = .session operation := by simpa using hpump
    exact Session.numbered_step hnumbered operation

/-- In a settled run ids are distinct and nobody writes without the permission. -/
theorem invariants_of_reachable {mode : Mode}
    (hreach : ((machine mode).restrict Settled).Reachable state) :
    state.session.Numbered ∧ state.WritersPermitted := by
  refine hreach.invariant (P := fun state ↦ state.session.Numbered ∧ state.WritersPermitted) ?_ ?_
  · exact ⟨rfl, fun id hwriting ↦ (Bool.false_ne_true hwriting).elim⟩
  · rintro before action _ ⟨hnumbered, hwriters⟩ ⟨_, hsettled⟩
    exact ⟨numbered_step hnumbered action, writersPermitted_step hwriters hsettled⟩

/-- The client is evicted, or has no permission and is not promoted in what follows. -/
def Barred (id : ℕ) (actions : List InputAction) (client : SessionClient) : Prop :=
  client.kicked = true ∨ client.canWrite = false ∧ .session (.promoteClient id) ∉ actions

/-- The chunks of one client on the PTY. -/
def written (state : InputRun) (id : ℕ) : List Bytes :=
  (state.pty.filter fun entry ↦ entry.1 = id).map Prod.snd

/-- Nothing is written for a client whose pump is not writing. -/
theorem written_step (hidle : state.writing id = false) :
    (state.step action).written id = state.written id := by
  cases action with
  | write writer =>
    simp only [step]
    split
    · next chunk canWrite hstage =>
      by_cases hwriter : writer = id
      · subst hwriter
        have hcanWrite : canWrite = false := by simpa [writing, hstage] using hidle
        simp [written, hcanWrite]
      · cases canWrite <;> simp [written, hwriter]
    · rfl
  | sample sampler =>
    simp only [step]
    split <;> rfl
  | _ => rfl

/-- A client that is barred stays so until it is promoted. -/
theorem barred_step {rest : List InputAction}
    (hbarred : ∃ client ∈ state.session.clients, client.id = id ∧ Barred id (action :: rest) client) :
    ∃ client ∈ (state.step action).session.clients, client.id = id ∧ Barred id rest client := by
  obtain ⟨client, hclient, hid, hbarred⟩ := hbarred
  by_cases hpump : ∀ operation, action ≠ .session operation
  · rw [session_step_of_pump hpump]
    exact ⟨client, hclient, hid, hbarred.imp_right fun h ↦ ⟨h.1, by simp_all⟩⟩
  · obtain ⟨operation, rfl⟩ : ∃ operation, action = .session operation := by simpa using hpump
    have hevolves := state.session.after_evolves operation client
    refine ⟨state.session.after operation client, ?_, hevolves.id.trans hid, ?_⟩
    · exact Session.mem_step.mpr (.inl ⟨client, hclient, rfl⟩)
    · rcases hbarred with hkicked | ⟨hcanWrite, hpromote⟩
      · exact .inl (hevolves.kicked hkicked)
      · right
        rw [List.mem_cons, not_or] at hpromote
        refine ⟨Bool.eq_false_iff.mpr fun hafter ↦ hpromote.1 ?_, hpromote.2⟩
        rw [(Session.promoted_of_after hcanWrite hafter).1, hid]

/-- A barred client is not writing. -/
theorem not_writing_of_barred (hnumbered : state.session.Numbered) (hwriters : state.WritersPermitted)
    {actions : List InputAction}
    (hbarred : ∃ client ∈ state.session.clients, client.id = id ∧ Barred id actions client) :
    state.writing id = false := by
  apply Bool.eq_false_iff.mpr
  intro hwriting
  obtain ⟨client, hclient, hid, hbarred⟩ := hbarred
  obtain ⟨other, hother, hother_id, hpermitted⟩ := hwriters id hwriting
  obtain rfl := hnumbered.eq_of_id hclient hother (hid.trans hother_id.symm)
  rcases hbarred with hkicked | ⟨hcanWrite, _⟩
  · simp [hpermitted.not_kicked] at hkicked
  · simp [hpermitted.canWrite] at hcanWrite

end InputRun

/-- Once an operation has evicted a client or taken its permission, nothing more of it is written to the
PTY until it is promoted again, in every run whose steps are `Settled`. -/
theorem input_stops (mode : Mode) {state : InputRun} {id : ℕ} {actions : List InputAction}
    (hreach : ((InputRun.machine mode).restrict InputRun.Settled).Reachable state)
    (hbarred : ∃ client ∈ state.session.clients,
      client.id = id ∧ InputRun.Barred id actions client)
    (hlegal : ((InputRun.machine mode).restrict InputRun.Settled).Legal state actions) :
    ((InputRun.machine mode).run state actions).written id = state.written id := by
  induction actions generalizing state with
  | nil => rfl
  | cons action rest ih =>
    obtain ⟨hnumbered, hwriters⟩ := InputRun.invariants_of_reachable hreach
    calc ((InputRun.machine mode).run state (action :: rest)).written id
        = ((InputRun.machine mode).run (state.step action) rest).written id := rfl
      _ = (state.step action).written id :=
        ih (hreach.step hlegal.1) (InputRun.barred_step hbarred) hlegal.2
      _ = state.written id :=
        InputRun.written_step (InputRun.not_writing_of_barred hnumbered hwriters hbarred)

section Example

abbrev exampleInput : Machine InputRun InputAction := InputRun.machine .multiWrite

/-- A client types, is demoted when its chunk is on the PTY, and goes on typing. -/
def exampleSettled : List InputAction :=
  [.session (.addClient exampleWriter "alpha"), .read 1 [97], .sample 1, .write 1,
    .session (.demoteRemote "alpha")]

def exampleTyping : List InputAction := [.read 1 [98], .sample 1, .write 1]

theorem input_stops_example :
    (exampleInput.run exampleInput.init exampleSettled).written 1 = [[97]] ∧
      (exampleInput.run (exampleInput.run exampleInput.init exampleSettled) exampleTyping).written 1 =
        [[97]] := by
  have hlegal : (exampleInput.restrict InputRun.Settled).Legal exampleInput.init exampleSettled :=
    Machine.legal_restrict _ (by decide +kernel) (by decide +kernel)
  have htyping : (exampleInput.restrict InputRun.Settled).Legal
      (exampleInput.run exampleInput.init exampleSettled) exampleTyping :=
    Machine.legal_restrict _ (by decide +kernel) (by decide +kernel)
  have hwritten : (exampleInput.run exampleInput.init exampleSettled).written 1 = [[97]] := by
    decide +kernel
  refine ⟨hwritten, (input_stops .multiWrite (Machine.Reachable.init.run hlegal) ?_ htyping).trans
    hwritten⟩
  unfold InputRun.Barred
  decide +kernel

/-- The chunk is sampled before the demotion. -/
def exampleDemoted : List InputAction :=
  [.session (.addClient exampleWriter "alpha"), .read 1 [97], .sample 1,
    .session (.demoteRemote "alpha")]

def exampleEvicted : List InputAction :=
  [.session (.addClient exampleWriter "alpha"), .session (.kickClient 1)]

theorem input_after_permission_loss :
    exampleInput.Legal exampleInput.init (exampleDemoted ++ [.write 1]) ∧
      (exampleInput.run exampleInput.init exampleDemoted).session.clients.map
        SessionClient.canWrite = [false] ∧
      (exampleInput.run exampleInput.init exampleDemoted).written 1 = [] ∧
      (exampleInput.run exampleInput.init (exampleDemoted ++ [.write 1])).written 1 = [[97]] ∧
    exampleInput.Legal exampleInput.init (exampleEvicted ++ exampleTyping) ∧
      (exampleInput.run exampleInput.init exampleEvicted).session.clients.map
        SessionClient.kicked = [true] ∧
      (exampleInput.run exampleInput.init (exampleEvicted ++ exampleTyping)).written 1 = [[98]] := by
  decide +kernel

end Example

end Mosey.Vterm
