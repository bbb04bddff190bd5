import Mathlib.Data.List.Nodup
import Mathlib.Logic.Function.Basic
import Mosey.Auth.Handshake
import Mosey.Library.Channel
import Mosey.Library.Machine

/-!
# The session and its clients

A session owns the registry of attached clients, the mode that governs admission and the writer seat
of `PrimaryObserver`. Every operation runs under one lock, so it is one step. A client that has left
the registry is kept, unregistered: its goroutines still hold it, put its replay on its channel and drain
the channel. Ids are counted in an `int64` and are numbers here, which is the same for the first `2 ^ 63`
attaches.
-/

namespace Mosey.Vterm

open Library Auth

inductive Mode
  | unspecified
  | supersede
  | exclusive
  | primaryObserver
  | multiWrite
  deriving DecidableEq

def clientBufferChunks : ℕ := 256

structure SessionClient where
  id : ℕ
  identity : Identity
  remote : String
  outCh : Channel Bytes clientBufferChunks
  /-- `done` is closed. -/
  kicked : Bool
  canWrite : Bool
  cols : UInt32
  rows : UInt32
  dropped : ℕ
  registered : Bool
  deriving DecidableEq

namespace SessionClient

variable (client : SessionClient)

def kick : SessionClient := { client with kicked := true }

/-- Dropped from the registry, with its `done` closed. -/
def leave : SessionClient := { client.kick with registered := false }

/-- A send that does not wait: of `broadcast` to one client, and of `bridgeClient` with the replay. -/
def offer (chunk : Bytes) : SessionClient :=
  match client.outCh.trySend chunk with
  | some outCh => { client with outCh := outCh }
  | none => { client with dropped := client.dropped + 1 }

theorem offer_of_hasRoom {client : SessionClient} (hroom : client.outCh.HasRoom) (chunk : Bytes) :
    (client.offer chunk).outCh.sent = client.outCh.sent ++ [chunk] ∧
      (client.offer chunk).id = client.id ∧
      (client.offer chunk).registered = client.registered := by
  cases hsend : client.outCh.trySend chunk with
  | none => exact absurd hroom (Channel.trySend_eq_none.mp hsend)
  | some outCh =>
    obtain ⟨_, hsent, _⟩ := Channel.trySend_eq_some hsend
    simp [offer, hsend, hsent]

/-- The registry entry of this id. -/
def Is (id : ℕ) : Prop := client.registered = true ∧ client.id = id

instance (id : ℕ) : Decidable (client.Is id) := inferInstanceAs (Decidable (_ ∧ _))

end SessionClient

structure Session where
  mode : Mode
  nextID : ℕ
  clients : List SessionClient
  writerID : ℕ
  pendingResize : String → Option (UInt32 × UInt32)

namespace Session

/-- A session as `Run` starts it. -/
def start (mode : Mode) : Session := ⟨mode, 0, [], 0, fun _ ↦ none⟩

variable (session : Session)

/-- `s.clients[id]`. -/
def client? (id : ℕ) : Option SessionClient := session.clients.find? fun client ↦ client.Is id

def onAll (change : SessionClient → SessionClient) : Session :=
  { session with
    clients := session.clients.map fun client ↦
      if client.registered then change client else client }

def onClient (id : ℕ) (change : SessionClient → SessionClient) : Session :=
  { session with
    clients := session.clients.map fun client ↦ if client.Is id then change client else client }

def minGeometryLocked : UInt32 × UInt32 :=
  (session.clients.filter (·.registered)).foldl (fun size client ↦
    if client.cols = 0 ∨ client.rows = 0 then size
    else
      (if size.1 = 0 ∨ client.cols < size.1 then client.cols else size.1,
        if size.2 = 0 ∨ client.rows < size.2 then client.rows else size.2)) (0, 0)

/-- The `switch` of `addClientLocked`: the write permission of the new client, unless it is refused. -/
def admission (identity : Identity) : Option (Session × Bool) :=
  match session.mode with
  | .exclusive =>
    if session.clients.any (·.registered) then none else some (session, identity.canWrite)
  | .supersede => some (session.onAll SessionClient.kick, identity.canWrite)
  | .primaryObserver =>
    let writerID := if (session.client? session.writerID).isSome then session.writerID else 0
    some ({ session with writerID := writerID }, identity.canWrite && writerID = 0)
  | .multiWrite => some (session, identity.canWrite)
  | .unspecified => none

/-- The new client and the size to apply to the PTY, or nothing if the mode refuses the attach. -/
def addClientLocked (identity : Identity) (remote : String) :
    Option (Session × SessionClient × UInt32 × UInt32) :=
  match session.admission identity with
  | none => none
  | some (ready, canWrite) =>
    let geometry := (ready.pendingResize remote).getD (0, 0)
    let client : SessionClient :=
      { id := ready.nextID + 1
        identity := identity
        remote := remote
        outCh := .empty
        kicked := false
        canWrite := canWrite
        cols := geometry.1
        rows := geometry.2
        dropped := 0
        registered := true }
    let added : Session :=
      { mode := ready.mode
        nextID := ready.nextID + 1
        clients := ready.clients ++ [client]
        writerID := if ready.mode = .primaryObserver ∧ canWrite then client.id else ready.writerID
        pendingResize := Function.update ready.pendingResize remote none }
    some (added, client, if 0 < client.cols ∧ 0 < client.rows then added.minGeometryLocked else (0, 0))

def addClient (identity : Identity) (remote : String) : Session :=
  match session.addClientLocked identity remote with
  | none => session
  | some (added, _) => added

/-- The most recently added client of this remote. -/
def clientByRemoteIDLocked (remote : String) : Option SessionClient :=
  session.clients.foldl (fun latest client ↦
    if ¬ (client.registered ∧ client.remote = remote) then latest
    else
      match latest with
      | none => some client
      | some found => if found.id < client.id then some client else some found) none

/-- The session and the size that is applied to the PTY afterwards. -/
def applyResizeForRemote (remote : String) (cols rows : UInt32) : Session × UInt32 × UInt32 :=
  match session.clientByRemoteIDLocked remote with
  | none =>
    ({ session with
        pendingResize := Function.update session.pendingResize remote (some (cols, rows)) }, 0, 0)
  | some client =>
    let resized := session.onClient client.id fun client ↦ { client with cols := cols, rows := rows }
    let size := resized.minGeometryLocked
    (resized, if size.1 = 0 ∨ size.2 = 0 then (0, 0) else size)

def setMode (mode : Mode) : Session × Mode := ({ session with mode := mode }, session.mode)

def demoteRemote (remote : String) : Session × Bool :=
  match session.clientByRemoteIDLocked remote with
  | none => (session, false)
  | some client =>
    let demoted := session.onClient client.id fun client ↦ { client with canWrite := false }
    ({ demoted with writerID := if demoted.writerID = client.id then 0 else demoted.writerID }, true)

def promoteClient (id : ℕ) : Session × Bool :=
  if (session.client? id).isNone then (session, false)
  else
    let seated : Session :=
      if session.mode = .primaryObserver then
        let vacated := if session.writerID = id then session
          else session.onClient session.writerID fun client ↦ { client with canWrite := false }
        { vacated with writerID := id }
      else session
    (seated.onClient id fun client ↦ { client with canWrite := true }, true)

def kickClient (id : ℕ) : Session × Bool :=
  (session.onClient id SessionClient.kick, (session.client? id).isSome)

/-- The session and the size that is applied to the PTY afterwards, if it is not zero. -/
def removeClient (id : ℕ) : Session × UInt32 × UInt32 :=
  let removed := session.onClient id SessionClient.leave
  let vacated := { removed with writerID := if removed.writerID = id then 0 else removed.writerID }
  (vacated, vacated.minGeometryLocked)

def broadcast (chunk : Bytes) : Session := session.onAll fun client ↦ client.offer chunk

def shutdown : Session := { session.onAll SessionClient.leave with writerID := 0 }

/-- `bridgeClient` puts the replay on the channel of the client that it holds, registered or not. -/
def sendReplay (id : ℕ) (replay : Bytes) : Session :=
  { session with
    clients := session.clients.map fun client ↦
      if client.id = id then client.offer replay else client }

/-- The output goroutine of a client takes a chunk from its channel. -/
def receive (id : ℕ) : Session :=
  { session with
    clients := session.clients.map fun client ↦
      if client.id = id then { client with outCh := client.outCh.receive } else client }

end Session

inductive SessionAction
  | addClient (identity : Identity) (remote : String)
  | removeClient (id : ℕ)
  | kickClient (id : ℕ)
  | promoteClient (id : ℕ)
  | demoteRemote (remote : String)
  | applyResizeForRemote (remote : String) (cols rows : UInt32)
  | setMode (mode : Mode)
  | broadcast (chunk : Bytes)
  | sendReplay (id : ℕ) (replay : Bytes)
  | receive (id : ℕ)
  | shutdown
  deriving DecidableEq

namespace Session

def step (session : Session) : SessionAction → Session
  | .addClient identity remote => session.addClient identity remote
  | .removeClient id => (session.removeClient id).1
  | .kickClient id => (session.kickClient id).1
  | .promoteClient id => (session.promoteClient id).1
  | .demoteRemote remote => (session.demoteRemote remote).1
  | .applyResizeForRemote remote cols rows => (session.applyResizeForRemote remote cols rows).1
  | .setMode mode => (session.setMode mode).1
  | .broadcast chunk => session.broadcast chunk
  | .sendReplay id replay => session.sendReplay id replay
  | .receive id => session.receive id
  | .shutdown => session.shutdown

/-- A session under any sequence of operations. -/
def machine (mode : Mode) : Machine Session SessionAction where
  init := start mode
  allowed _ _ := True
  step := step

/-! ## What a step does to each client -/

/-- What becomes of a client that is already there. -/
def after (session : Session) : SessionAction → SessionClient → SessionClient
  | .addClient _ _ => fun client ↦
    if session.mode = .supersede ∧ client.registered then client.kick else client
  | .removeClient id => fun client ↦ if client.Is id then client.leave else client
  | .kickClient id => fun client ↦ if client.Is id then client.kick else client
  | .promoteClient id => fun client ↦
    if (session.client? id).isNone then client
    else if client.Is id then { client with canWrite := true }
    else if session.mode = .primaryObserver ∧ client.Is session.writerID then
      { client with canWrite := false }
    else client
  | .demoteRemote remote => fun client ↦
    match session.clientByRemoteIDLocked remote with
    | none => client
    | some found => if client.Is found.id then { client with canWrite := false } else client
  | .applyResizeForRemote remote cols rows => fun client ↦
    match session.clientByRemoteIDLocked remote with
    | none => client
    | some found => if client.Is found.id then { client with cols := cols, rows := rows } else client
  | .setMode _ => fun client ↦ client
  | .broadcast chunk => fun client ↦ if client.registered then client.offer chunk else client
  | .sendReplay id replay => fun client ↦ if client.id = id then client.offer replay else client
  | .receive id => fun client ↦
    if client.id = id then { client with outCh := client.outCh.receive } else client
  | .shutdown => fun client ↦ if client.registered then client.leave else client

/-- The client that a step admits, if any. -/
def admitted (session : Session) : SessionAction → List SessionClient
  | .addClient identity remote =>
    match session.addClientLocked identity remote with
    | none => []
    | some (_, client, _) => [client]
  | _ => []

variable {session ready added : Session} {identity : Identity} {remote : String} {client : SessionClient}
  {size : UInt32 × UInt32} {action : SessionAction}

/-- Who is admitted, and what the admission does to the clients before. -/
theorem admission_eq_some {canWrite : Bool}
    (hadmission : session.admission identity = some (ready, canWrite)) :
    ready.mode = session.mode ∧ ready.nextID = session.nextID ∧
      ready.clients = session.clients.map (session.after (.addClient identity "")) ∧
      (canWrite = true → identity.canWrite = true) := by
  unfold admission at hadmission
  cases hmode : session.mode with
  | unspecified => simp [hmode] at hadmission
  | supersede =>
    simp only [hmode, Option.some.injEq, Prod.mk.injEq] at hadmission
    obtain ⟨rfl, rfl⟩ := hadmission
    simp [onAll, after, hmode]
  | exclusive =>
    simp only [hmode, Option.ite_none_left_eq_some, Option.some.injEq, Prod.mk.injEq] at hadmission
    obtain ⟨_, rfl, rfl⟩ := hadmission
    simp [after, hmode]
  | primaryObserver =>
    simp only [hmode, Option.some.injEq, Prod.mk.injEq] at hadmission
    obtain ⟨rfl, rfl⟩ := hadmission
    simp +contextual [after, hmode]
  | multiWrite =>
    simp only [hmode, Option.some.injEq, Prod.mk.injEq] at hadmission
    obtain ⟨rfl, rfl⟩ := hadmission
    simp [after, hmode]

/-- What an admission does, beside what becomes of the clients that are there. -/
theorem addClientLocked_eq_some
    (hadd : session.addClientLocked identity remote = some (added, client, size)) :
    ∃ ready canWrite, session.admission identity = some (ready, canWrite) ∧
      added.mode = session.mode ∧ added.nextID = session.nextID + 1 ∧
      added.clients = session.clients.map (session.after (.addClient identity remote)) ++ [client] ∧
      added.writerID = (if session.mode = .primaryObserver ∧ canWrite then client.id
        else ready.writerID) ∧
      client.id = session.nextID + 1 ∧ client.identity = identity ∧ client.remote = remote ∧
      client.outCh = .empty ∧ client.kicked = false ∧ client.canWrite = canWrite ∧
      client.dropped = 0 ∧ client.registered = true := by
  unfold addClientLocked at hadd
  split at hadd
  · cases hadd
  · next ready canWrite hadmission =>
    obtain ⟨hmode, hnext, hclients, _⟩ := admission_eq_some hadmission
    simp only [Option.some.injEq, Prod.mk.injEq] at hadd
    obtain ⟨rfl, rfl, _⟩ := hadd
    refine ⟨ready, canWrite, hadmission, hmode, ?_, ?_, ?_, ?_, rfl, rfl, rfl, rfl, rfl, rfl, rfl⟩
    · rw [hnext]
    · rw [hclients]
      rfl
    · rw [hmode]
    · rw [hnext]

/-- Only `Exclusive` refuses an attach, or no mode at all. -/
theorem addClientLocked_eq_none (hrefused : session.addClientLocked identity remote = none) :
    session.mode = .unspecified ∨ session.mode = .exclusive := by
  unfold addClientLocked at hrefused
  split at hrefused
  · next hadmission =>
    unfold admission at hadmission
    split at hadmission <;> simp_all
  · cases hrefused

/-- A step changes each client and admits at most one. -/
theorem clients_step (session : Session) (action : SessionAction) :
    (session.step action).clients =
      session.clients.map (session.after action) ++ session.admitted action := by
  cases action with
  | addClient identity remote =>
    cases hadd : session.addClientLocked identity remote with
    | none =>
      have hmode : session.mode ≠ .supersede := by
        rcases addClientLocked_eq_none hadd with hmode | hmode <;> simp [hmode]
      simp [step, addClient, after, admitted, hadd, hmode]
    | some result =>
      obtain ⟨added, client, size⟩ := result
      obtain ⟨_, _, _, _, _, hclients, _⟩ := addClientLocked_eq_some hadd
      simp [step, addClient, admitted, hadd, hclients]
  | removeClient id => simp [step, removeClient, onClient, after, admitted]
  | kickClient id => simp [step, kickClient, onClient, after, admitted]
  | promoteClient id =>
    simp only [step, promoteClient, after, admitted, List.append_nil]
    by_cases hnone : (session.client? id).isNone
    · simp [hnone]
    by_cases hmode : session.mode = .primaryObserver
    · by_cases hseat : session.writerID = id
      · simp only [hnone, hmode, hseat, onClient, if_true, true_and]
        apply List.map_congr_left
        intro client _
        by_cases his : client.Is id <;> simp [his]
      · simp only [hnone, hmode, hseat, onClient, List.map_map, if_true, if_false, true_and]
        apply List.map_congr_left
        intro client _
        rw [Function.comp_apply]
        by_cases hwriter : client.Is session.writerID
        · have hother : ¬ client.Is id := fun his ↦ hseat (hwriter.2.symm.trans his.2)
          have hdemoted : ¬ ({ client with canWrite := false } : SessionClient).Is id := hother
          simp [hwriter, hother, hdemoted]
        · simp [hwriter]
    · simp [hnone, hmode, onClient]
  | demoteRemote remote =>
    cases hfound : session.clientByRemoteIDLocked remote with
    | none => simp [step, demoteRemote, after, admitted, hfound]
    | some found => simp [step, demoteRemote, after, admitted, hfound, onClient]
  | applyResizeForRemote remote cols rows =>
    cases hfound : session.clientByRemoteIDLocked remote with
    | none => simp [step, applyResizeForRemote, after, admitted, hfound]
    | some found => simp [step, applyResizeForRemote, after, admitted, hfound, onClient]
  | setMode mode => simp [step, setMode, after, admitted]
  | broadcast chunk => simp [step, broadcast, onAll, after, admitted]
  | sendReplay id replay => simp [step, sendReplay, after, admitted]
  | receive id => simp [step, receive, after, admitted]
  | shutdown => simp [step, shutdown, onAll, after, admitted]

theorem mem_step : client ∈ (session.step action).clients ↔
      (∃ before ∈ session.clients, session.after action before = client) ∨
        client ∈ session.admitted action := by
  rw [clients_step, List.mem_append, List.mem_map]

/-- Only an attach that succeeds admits a client. -/
theorem mem_admitted :
    client ∈ session.admitted action ↔ ∃ identity remote added size,
      action = .addClient identity remote ∧
        session.addClientLocked identity remote = some (added, client, size) := by
  constructor
  · intro hmem
    cases action with
    | addClient identity remote =>
      simp only [admitted] at hmem
      split at hmem
      · cases hmem
      · next added found size hadd =>
        rw [List.mem_singleton.mp hmem]
        exact ⟨identity, remote, added, size, rfl, hadd⟩
    | _ => cases hmem
  · rintro ⟨identity, remote, added, size, rfl, hadd⟩
    simp [admitted, hadd]

theorem step_addClient (hadd : session.addClientLocked identity remote = some (added, client, size)) :
    session.step (.addClient identity remote) = added := by
  simp [step, addClient, hadd]

theorem step_addClient_refused (hrefused : session.addClientLocked identity remote = none) :
    session.step (.addClient identity remote) = session := by
  simp [step, addClient, hrefused]

/-- Each admission takes the next id. -/
theorem nextID_step (session : Session) (action : SessionAction) :
    (session.step action).nextID = session.nextID + (session.admitted action).length := by
  cases action with
  | addClient identity remote =>
    cases hadd : session.addClientLocked identity remote with
    | none => simp [step, addClient, admitted, hadd]
    | some result =>
      obtain ⟨added, client, size⟩ := result
      obtain ⟨_, _, _, _, hnext, _⟩ := addClientLocked_eq_some hadd
      simp [step, addClient, admitted, hadd, hnext]
  | promoteClient id =>
    simp only [step, promoteClient, admitted, onClient]
    split_ifs <;> rfl
  | demoteRemote remote =>
    simp only [step, demoteRemote, admitted, onClient]
    split <;> rfl
  | applyResizeForRemote remote cols rows =>
    simp only [step, applyResizeForRemote, admitted, onClient]
    split <;> rfl
  | _ => rfl

/-- Only `SetMode` changes the mode. -/
theorem mode_step (haction : ∀ mode, action ≠ .setMode mode) :
    (session.step action).mode = session.mode := by
  cases action with
  | addClient identity remote =>
    cases hadd : session.addClientLocked identity remote with
    | none => rw [step_addClient_refused hadd]
    | some result =>
      obtain ⟨added, client, size⟩ := result
      obtain ⟨_, _, _, hmode, _⟩ := addClientLocked_eq_some hadd
      rw [step_addClient hadd, hmode]
  | promoteClient id =>
    simp only [step, promoteClient, onClient]
    split_ifs <;> rfl
  | demoteRemote remote =>
    simp only [step, demoteRemote, onClient]
    split <;> rfl
  | applyResizeForRemote remote cols rows =>
    simp only [step, applyResizeForRemote, onClient]
    split <;> rfl
  | setMode mode => exact absurd rfl (haction mode)
  | _ => rfl

end Session

/-- What an operation can do to a client, and when. -/
inductive SessionClient.Change (session : Session) (client : SessionClient) :
    SessionAction → SessionClient → Prop
  | unchanged {action : SessionAction} : Change session client action client
  | superseded {identity : Identity} {remote : String} : session.mode = .supersede →
      client.registered = true → Change session client (.addClient identity remote) client.kick
  | removed {id : ℕ} : client.Is id → Change session client (.removeClient id) client.leave
  | kicked {id : ℕ} : client.Is id → Change session client (.kickClient id) client.kick
  | promoted {id : ℕ} : client.Is id →
      Change session client (.promoteClient id) { client with canWrite := true }
  | unseated {id : ℕ} : (session.client? id).isSome = true → session.mode = .primaryObserver →
      client.Is session.writerID → ¬ client.Is id →
      Change session client (.promoteClient id) { client with canWrite := false }
  | demoted {remote : String} {found : SessionClient} :
      session.clientByRemoteIDLocked remote = some found → client.Is found.id →
      Change session client (.demoteRemote remote) { client with canWrite := false }
  | resized {remote : String} {cols rows : UInt32} : Change session client
      (.applyResizeForRemote remote cols rows) { client with cols := cols, rows := rows }
  | offered {chunk : Bytes} : client.registered = true →
      Change session client (.broadcast chunk) (client.offer chunk)
  | replayed {id : ℕ} {replay : Bytes} :
      Change session client (.sendReplay id replay) (client.offer replay)
  | received {id : ℕ} : Change session client (.receive id)
      { client with outCh := client.outCh.receive }
  | dismissed : client.registered = true → Change session client .shutdown client.leave

/-- What no step changes in a client, and the one-way changes. -/
structure SessionClient.Evolves (before after : SessionClient) : Prop where
  id : after.id = before.id
  identity : after.identity = before.identity
  remote : after.remote = before.remote
  registered : after.registered = true → before.registered = true
  kicked : before.kicked = true → after.kicked = true

namespace Session

variable {session : Session}

/-- What each action does to each client. -/
theorem change_after (session : Session) (action : SessionAction) (client : SessionClient) :
    client.Change session action (session.after action client) := by
  cases action with
  | addClient identity remote =>
    simp only [after]
    split
    · next hevicted => exact .superseded hevicted.1 hevicted.2
    · exact .unchanged
  | removeClient id =>
    simp only [after]
    split
    · next his => exact .removed his
    · exact .unchanged
  | kickClient id =>
    simp only [after]
    split
    · next his => exact .kicked his
    · exact .unchanged
  | promoteClient id =>
    simp only [after]
    split_ifs with hnone his hseat
    · exact .unchanged
    · exact .promoted his
    · exact .unseated (by simpa [Option.isSome_iff_ne_none] using hnone) hseat.1 hseat.2 his
    · exact .unchanged
  | demoteRemote remote =>
    simp only [after]
    split
    · exact .unchanged
    · next found hfound =>
      split
      · next his => exact .demoted hfound his
      · exact .unchanged
  | applyResizeForRemote remote cols rows =>
    simp only [after]
    split
    · exact .unchanged
    · split
      · exact .resized
      · exact .unchanged
  | setMode mode => exact .unchanged
  | broadcast chunk =>
    simp only [after]
    split
    · next hregistered => exact .offered hregistered
    · exact .unchanged
  | sendReplay id replay =>
    simp only [after]
    split
    · exact .replayed
    · exact .unchanged
  | receive id =>
    simp only [after]
    split
    · exact .received
    · exact .unchanged
  | shutdown =>
    simp only [after]
    split
    · next hregistered => exact .dismissed hregistered
    · exact .unchanged

end Session

namespace SessionClient

variable {session : Session} {action : SessionAction} {client later : SessionClient}

theorem evolves_offer (client : SessionClient) (chunk : Bytes) :
    client.Evolves (client.offer chunk) := by
  unfold offer
  split <;> exact ⟨rfl, rfl, rfl, fun h ↦ h, fun h ↦ h⟩

theorem canWrite_offer (client : SessionClient) (chunk : Bytes) :
    (client.offer chunk).canWrite = client.canWrite := by
  unfold offer
  split <;> rfl

/-- A client keeps its identity and never joins again. -/
theorem Change.evolves (hchange : client.Change session action later) : client.Evolves later := by
  cases hchange with
  | removed _ => exact ⟨rfl, rfl, rfl, fun hregistered ↦ (nomatch hregistered), fun _ ↦ rfl⟩
  | dismissed _ => exact ⟨rfl, rfl, rfl, fun hregistered ↦ (nomatch hregistered), fun _ ↦ rfl⟩
  | superseded _ _ => exact ⟨rfl, rfl, rfl, fun h ↦ h, fun _ ↦ rfl⟩
  | kicked _ => exact ⟨rfl, rfl, rfl, fun h ↦ h, fun _ ↦ rfl⟩
  | @offered chunk _ => exact client.evolves_offer chunk
  | @replayed _ replay => exact client.evolves_offer replay
  | _ => exact ⟨rfl, rfl, rfl, fun h ↦ h, fun h ↦ h⟩

/-- Permissions change by promotions and demotions only. -/
theorem Change.canWrite (hchange : client.Change session action later)
    (hpromote : ∀ id, action ≠ .promoteClient id)
    (hdemote : ∀ remote, action ≠ .demoteRemote remote) : later.canWrite = client.canWrite := by
  cases hchange with
  | @promoted id _ => exact absurd rfl (hpromote id)
  | @unseated id _ _ _ _ => exact absurd rfl (hpromote id)
  | @demoted remote _ _ _ => exact absurd rfl (hdemote remote)
  | @offered chunk _ => exact client.canWrite_offer chunk
  | @replayed _ replay => exact client.canWrite_offer replay
  | _ => rfl

end SessionClient

namespace Session

variable {session : Session}

theorem after_evolves (session : Session) (action : SessionAction) (client : SessionClient) :
    client.Evolves (session.after action client) :=
  (session.change_after action client).evolves

/-- Only a promotion or a demotion changes who writes. -/
theorem canWrite_after {action : SessionAction} (hpromote : ∀ id, action ≠ .promoteClient id)
    (hdemote : ∀ remote, action ≠ .demoteRemote remote) (client : SessionClient) :
    (session.after action client).canWrite = client.canWrite :=
  (session.change_after action client).canWrite hpromote hdemote

/-- Whoever has become a writer was promoted. -/
theorem promoted_of_after {action : SessionAction} {client : SessionClient}
    (hbefore : client.canWrite = false) (hafter : (session.after action client).canWrite = true) :
    action = .promoteClient client.id ∧ client.registered = true := by
  have hchange := session.change_after action client
  generalize session.after action client = later at hchange hafter
  have hdiffers : later.canWrite ≠ client.canWrite := by
    rw [hafter, hbefore]
    decide
  cases hchange with
  | promoted his => exact ⟨by rw [his.2], his.1⟩
  | unseated | demoted => cases hafter
  | @offered chunk _ => exact absurd (client.canWrite_offer chunk) hdiffers
  | @replayed _ replay => exact absurd (client.canWrite_offer replay) hdiffers
  | _ => exact absurd rfl hdiffers

/-- The clients are numbered in the order of their admission, without a gap. -/
def Numbered (session : Session) : Prop :=
  session.clients.map SessionClient.id = List.range' 1 session.nextID

theorem ids_after (session : Session) (action : SessionAction) :
    (session.clients.map (session.after action)).map SessionClient.id =
      session.clients.map SessionClient.id := by
  rw [List.map_map]
  apply List.map_congr_left
  intro client _
  exact (session.after_evolves action client).id

theorem numbered_step (hnumbered : session.Numbered) (action : SessionAction) :
    (session.step action).Numbered := by
  unfold Numbered at hnumbered ⊢
  rw [clients_step, List.map_append, ids_after, hnumbered, nextID_step]
  cases hadmitted : session.admitted action with
  | nil => simp
  | cons client rest =>
    have hclient : client ∈ session.admitted action := by simp [hadmitted]
    obtain ⟨identity, remote, added, size, rfl, hadd⟩ := mem_admitted.mp hclient
    obtain ⟨_, _, _, _, _, _, _, hid, _⟩ := addClientLocked_eq_some hadd
    obtain rfl : rest = [] := by simpa [admitted, hadd] using hadmitted.symm
    simp [hid, List.range'_concat, Nat.add_comm]

/-- An id belongs to one client. -/
theorem Numbered.eq_of_id (hnumbered : session.Numbered) {client other : SessionClient}
    (hclient : client ∈ session.clients) (hother : other ∈ session.clients)
    (hid : client.id = other.id) : client = other := by
  have hnodup : (session.clients.map SessionClient.id).Nodup := by
    rw [hnumbered]
    exact List.nodup_range'
  exact List.inj_on_of_nodup_map hnodup hclient hother hid

theorem Numbered.id_bounds (hnumbered : session.Numbered) {client : SessionClient}
    (hclient : client ∈ session.clients) : 0 < client.id ∧ client.id ≤ session.nextID := by
  have hmem : client.id ∈ session.clients.map SessionClient.id := List.mem_map_of_mem hclient
  rw [hnumbered, List.mem_range'_1] at hmem
  omega

theorem client?_isNone {id : ℕ} :
    (session.client? id).isNone ↔ ∀ client ∈ session.clients, ¬ client.Is id := by
  simp [client?]

theorem client?_isSome {id : ℕ} :
    (session.client? id).isSome ↔ ∃ client ∈ session.clients, client.Is id := by
  simp [client?]

end Session

def exampleWriter : Identity := ⟨"writer", ⟨false, true, true⟩⟩

end Mosey.Vterm
