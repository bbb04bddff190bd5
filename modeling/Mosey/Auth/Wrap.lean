import Mosey.Library.Lists
import Mosey.Library.Machine
import Mosey.Auth.Handshake

/-!
# The authenticated transport

`Wrapped.Dial` runs the handshake on a stream of its own, waits for the server's acknowledgement and
only then opens the application stream. On the server `Serve` records the identity under the
remote's id before it acknowledges, and the gate of `Handle` looks that id up when the application
stream arrives. Each of these is a separate step, and the steps of different dials interleave
freely. The handshakes themselves are abstracted to their results, which are arbitrary.

The table has one entry for each remote id. Dials that share a carrier share their remote id, so a
dial sees the identity of its own handshake exactly as long as no other dial of that id records a
different one before the gate has let its stream through.
-/

namespace Mosey.Auth

open Library

def protoAuth : String := "/mosey/auth/1.0.0"

def ackOK : UInt8 := 0x01

/-- The server's table of identities, keyed by remote id. -/
structure Wrapped where
  identities : String → Option Identity

namespace Wrapped

def wrap : Wrapped := ⟨fun _ ↦ none⟩

/-- The map write of `Serve`. -/
def store (wrapped : Wrapped) (remote : String) (identity : Identity) : Wrapped :=
  ⟨fun other ↦ if other = remote then some identity else wrapped.identities other⟩

/-- The lookup that `Handle` installs in front of an application handler. -/
def gate (wrapped : Wrapped) (remote : String) : Option Identity := wrapped.identities remote

@[simp] theorem gate_store_self (wrapped : Wrapped) (remote : String) (identity : Identity) :
    (wrapped.store remote identity).gate remote = some identity := by
  simp [gate, store]

/-- An identity stored for one transport is not seen on another. -/
theorem gate_store_of_ne (wrapped : Wrapped) {remote other : String} (identity : Identity)
    (hne : other ≠ remote) : (wrapped.store remote identity).gate other = wrapped.gate other := by
  simp [gate, store, hne]

end Wrapped

/-- Where `Dial` stands on the client. -/
inductive DialPhase
  | handshake
  | awaitAck (localID : Identity)
  | proceed (localID : Identity)
  | opened (localID : Identity)
  | failed (error : AuthError)
  deriving DecidableEq

/-- Where the handler that `Serve` installed stands on one auth stream. -/
inductive ServePhase
  | handshake
  | authenticated (identity : Identity)
  | stored (identity : Identity)
  | acked (identity : Identity)
  | closed
  deriving DecidableEq

/-- The application stream as the server's gate sees it. -/
inductive AppStream
  | unopened
  | inFlight
  | refused
  | admitted (identity : Identity)
  deriving DecidableEq

/-- One call of `Dial` with both of its streams. -/
structure Connection where
  remote : String
  dial : DialPhase
  serve : ServePhase
  app : AppStream
  deriving DecidableEq

/-- `Dial` after `ClientHandshake`. -/
def DialPhase.finishHandshake : Except AuthError Identity → DialPhase
  | .ok localID => .awaitAck localID
  | .error err => .failed err

/-- `Dial` after the read of the acknowledgement. -/
def DialPhase.checkAck (localID : Identity) : Except String UInt8 → DialPhase
  | .ok ack =>
    if ack = ackOK then .proceed localID
    else .failed (.rejected errPrefixAuth
      (": server sent unexpected ack 0x" ++ String.ofList (Nat.toDigits 16 ack.toNat)))
  | .error err => .failed (.rejected errPrefixAuth (": server closed without ack: " ++ err))

/-- The handler of `Serve` after `ServerHandshake`. -/
def ServePhase.finishHandshake : Except AuthError Identity → ServePhase
  | .ok identity => .authenticated identity
  | .error _ => .closed

/-- What reading one byte of the auth stream answers; nothing while the server still works. -/
def ServePhase.readAck : ServePhase → Option (Except String UInt8)
  | .acked _ => some (.ok ackOK)
  | .closed => some (.error "EOF")
  | _ => none

namespace Connection

/-- The first `inner.Dial`, with its error. -/
def start (remote : String) : Except String Unit → Connection
  | .ok _ => ⟨remote, .handshake, .handshake, .unopened⟩
  | .error err =>
    ⟨remote, .failed (.plain (errPrefixAuth ++ "open " ++ protoAuth ++ ": " ++ err)), .closed, .unopened⟩

def clientHandshake (result : Except AuthError Identity) (connection : Connection) : Connection :=
  match connection.dial with
  | .handshake => { connection with dial := .finishHandshake result }
  | _ => connection

def serverHandshake (result : Except AuthError Identity) (connection : Connection) : Connection :=
  match connection.serve with
  | .handshake => { connection with serve := .finishHandshake result }
  | _ => connection

def markStored (connection : Connection) : Connection :=
  match connection.serve with
  | .authenticated identity => { connection with serve := .stored identity }
  | _ => connection

def ack (connection : Connection) : Connection :=
  match connection.serve with
  | .stored identity => { connection with serve := .acked identity }
  | _ => connection

def readAck (connection : Connection) : Connection :=
  match connection.dial, connection.serve.readAck with
  | .awaitAck localID, some answer => { connection with dial := .checkAck localID answer }
  | _, _ => connection

/-- The second `inner.Dial`, with its error. -/
def openStream (result : Except AuthError Unit) (connection : Connection) : Connection :=
  match connection.dial, result with
  | .proceed localID, .ok _ => { connection with dial := .opened localID, app := .inFlight }
  | .proceed _, .error err => { connection with dial := .failed err }
  | _, _ => connection

def arrive (wrapped : Wrapped) (connection : Connection) : Connection :=
  match connection.app, wrapped.gate connection.remote with
  | .inFlight, some identity => { connection with app := .admitted identity }
  | .inFlight, none => { connection with app := .refused }
  | _, _ => connection

end Connection

/-- A server's table and every dial made to it. -/
structure Carrier where
  wrapped : Wrapped
  connections : List Connection

inductive CarrierAction
  | dial (remote : String) (result : Except String Unit)
  | clientHandshake (index : ℕ) (result : Except AuthError Identity)
  | serverHandshake (index : ℕ) (result : Except AuthError Identity)
  | store (index : ℕ)
  | ack (index : ℕ)
  | readAck (index : ℕ)
  | openStream (index : ℕ) (result : Except AuthError Unit)
  | arrive (index : ℕ)

namespace Carrier

def update (carrier : Carrier) (index : ℕ) (change : Connection → Connection) : Carrier :=
  { carrier with connections := carrier.connections.modify index change }

/-- The identity that `Serve` is about to record for a connection, with its remote id. -/
def recording (carrier : Carrier) (index : ℕ) : Option (String × Identity) :=
  match carrier.connections[index]? with
  | some ⟨remote, _, .authenticated identity, _⟩ => some (remote, identity)
  | _ => none

def step (carrier : Carrier) : CarrierAction → Carrier
  | .dial remote result =>
    { carrier with connections := carrier.connections ++ [.start remote result] }
  | .clientHandshake index result => carrier.update index (.clientHandshake result)
  | .serverHandshake index result => carrier.update index (.serverHandshake result)
  | .store index =>
    match carrier.recording index with
    | some (remote, identity) =>
      { wrapped := carrier.wrapped.store remote identity
        connections := carrier.connections.modify index .markStored }
    | none => carrier
  | .ack index => carrier.update index .ack
  | .readAck index => carrier.update index .readAck
  | .openStream index result => carrier.update index (.openStream result)
  | .arrive index => carrier.update index (.arrive carrier.wrapped)

def machine : Machine Carrier CarrierAction where
  init := ⟨.wrap, []⟩
  allowed _ _ := True
  step := step

end Carrier

def DialPhase.isFailed : DialPhase → Bool
  | .failed _ => true
  | _ => false

namespace Connection

/-- The connection's identity is recorded and its application stream may still arrive. -/
def Pending (connection : Connection) (identity : Identity) : Prop :=
  (connection.serve = .stored identity ∨ connection.serve = .acked identity) ∧
    (connection.app = .unopened ∨ connection.app = .inFlight) ∧ connection.dial.isFailed = false

/-- The order of the steps of one connection, and that a stream that was let through carries the
identity of its own handshake. -/
structure Ordered (connection : Connection) : Prop where
  proceed : ∀ localID, connection.dial = .proceed localID →
    ∃ identity, connection.serve = .acked identity
  opened : connection.app ≠ .unopened →
    ∃ localID identity, connection.dial = .opened localID ∧ connection.serve = .acked identity
  refused : connection.app ≠ .refused
  admitted : ∀ identity, connection.app = .admitted identity → connection.serve = .acked identity

/-- There is no application stream until the dialer has opened one. -/
theorem Ordered.app_eq_unopened {connection : Connection} (hordered : connection.Ordered)
    (hdial : ∀ localID, connection.dial ≠ .opened localID) : connection.app = .unopened := by
  by_contra happ
  obtain ⟨localID, _, hopened, _⟩ := hordered.opened happ
  exact hdial localID hopened

/-- Before the acknowledgement the server's phase is free: nothing of the client depends on it. -/
theorem Ordered.with_serve {connection : Connection} (hordered : connection.Ordered)
    (hserve : ∀ identity, connection.serve ≠ .acked identity) (serve : ServePhase) :
    Ordered { connection with serve := serve } where
  proceed localID hdial := by
    obtain ⟨identity, hacked⟩ := hordered.proceed localID hdial
    exact absurd hacked (hserve identity)
  opened happ := by
    obtain ⟨_, identity, _, hacked⟩ := hordered.opened happ
    exact absurd hacked (hserve identity)
  refused := hordered.refused
  admitted identity happ := absurd (hordered.admitted identity happ) (hserve identity)

/-- An ordered connection whose identity, while it is pending, is the one in the table. -/
structure Sound (wrapped : Wrapped) (connection : Connection) : Prop where
  ordered : connection.Ordered
  recorded : ∀ identity, connection.Pending identity →
    wrapped.gate connection.remote = some identity

variable {wrapped : Wrapped} {connection : Connection}

theorem Sound.start (remote : String) (result : Except String Unit) :
    (start remote result).Sound wrapped := by
  cases result with
  | ok _ => exact ⟨⟨by simp [Connection.start], by simp [Connection.start], by simp [Connection.start],
      by simp [Connection.start]⟩, by simp [Connection.start, Pending]⟩
  | error err => exact ⟨⟨by simp [Connection.start], by simp [Connection.start],
      by simp [Connection.start], by simp [Connection.start]⟩, by simp [Connection.start, Pending]⟩

theorem Sound.clientHandshake (hsound : connection.Sound wrapped)
    (result : Except AuthError Identity) : (connection.clientHandshake result).Sound wrapped := by
  unfold Connection.clientHandshake
  split
  · next hdial =>
    have hunopened := hsound.ordered.app_eq_unopened (by simp [hdial])
    refine ⟨⟨?_, ?_, hsound.ordered.refused, hsound.ordered.admitted⟩, ?_⟩
    · cases result <;> simp [DialPhase.finishHandshake]
    · simp [hunopened]
    · rintro identity ⟨hserve, happ, _⟩
      exact hsound.recorded identity ⟨hserve, happ, by rw [hdial]; rfl⟩
  · exact hsound

/-- The handshake of the server leaves a sound connection sound, whatever it returns. -/
theorem Sound.serverHandshake (hsound : connection.Sound wrapped)
    (result : Except AuthError Identity) : (connection.serverHandshake result).Sound wrapped := by
  unfold Connection.serverHandshake
  split
  · next hserve =>
    refine ⟨hsound.ordered.with_serve (by simp [hserve]) _, ?_⟩
    rintro identity ⟨hserve, _⟩
    cases result <;> simp [ServePhase.finishHandshake] at hserve
  · exact hsound

theorem Sound.ack (hsound : connection.Sound wrapped) : connection.ack.Sound wrapped := by
  unfold Connection.ack
  split
  · next identity hserve =>
    refine ⟨hsound.ordered.with_serve (by simp [hserve]) _, ?_⟩
    rintro other ⟨hother, hpending⟩
    obtain rfl : identity = other := by simpa using hother
    exact hsound.recorded identity ⟨.inl hserve, hpending⟩
  · exact hsound

theorem Sound.readAck (hsound : connection.Sound wrapped) : connection.readAck.Sound wrapped := by
  unfold Connection.readAck
  split
  · next localID answer hdial hanswer =>
    have hunopened := hsound.ordered.app_eq_unopened (by simp [hdial])
    refine ⟨⟨?_, by simp [hunopened], hsound.ordered.refused, hsound.ordered.admitted⟩, ?_⟩
    · intro localID' hproceed
      cases hserve : connection.serve with
      | acked identity => exact ⟨identity, rfl⟩
      | closed =>
        obtain rfl : Except.error "EOF" = answer := by
          simpa [hserve, ServePhase.readAck] using hanswer
        simp [DialPhase.checkAck] at hproceed
      | _ => simp [hserve, ServePhase.readAck] at hanswer
    · rintro identity ⟨hserve, happ, _⟩
      exact hsound.recorded identity ⟨hserve, happ, by rw [hdial]; rfl⟩
  · exact hsound

theorem Sound.openStream (hsound : connection.Sound wrapped) (result : Except AuthError Unit) :
    (connection.openStream result).Sound wrapped := by
  unfold Connection.openStream
  split
  · next localID _ hdial =>
    obtain ⟨identity, hacked⟩ := hsound.ordered.proceed localID hdial
    have hunopened := hsound.ordered.app_eq_unopened (by simp [hdial])
    refine ⟨⟨by simp, fun _ ↦ ⟨localID, identity, rfl, hacked⟩, by simp, by simp⟩, ?_⟩
    rintro other ⟨hserve, _⟩
    exact hsound.recorded other ⟨hserve, .inl hunopened, by rw [hdial]; rfl⟩
  · next localID err hdial =>
    have hunopened := hsound.ordered.app_eq_unopened (by simp [hdial])
    refine ⟨⟨by simp, by simp [hunopened], by simp [hunopened], by simp [hunopened]⟩, ?_⟩
    rintro other ⟨_, _, hfailed⟩
    cases hfailed
  · exact hsound

/-- The gate lets a sound connection through under the identity of its own handshake. -/
theorem Sound.gate_eq (hsound : connection.Sound wrapped) (happ : connection.app = .inFlight) :
    ∃ identity, connection.serve = .acked identity ∧
      wrapped.gate connection.remote = some identity := by
  obtain ⟨localID, identity, hdial, hacked⟩ := hsound.ordered.opened (by simp [happ])
  exact ⟨identity, hacked, hsound.recorded identity ⟨.inr hacked, .inr happ, by rw [hdial]; rfl⟩⟩

theorem Sound.arrive (hsound : connection.Sound wrapped) :
    (connection.arrive wrapped).Sound wrapped := by
  by_cases happ : connection.app = .inFlight
  · obtain ⟨identity, hacked, hgate⟩ := hsound.gate_eq happ
    obtain ⟨localID, _, hdial, _⟩ := hsound.ordered.opened (by simp [happ])
    have harrive : connection.arrive wrapped = { connection with app := .admitted identity } := by
      simp [Connection.arrive, happ, hgate]
    rw [harrive]
    refine ⟨⟨hsound.ordered.proceed, fun _ ↦ ⟨localID, identity, hdial, hacked⟩, by simp, ?_⟩, ?_⟩
    · intro other hother
      obtain rfl : identity = other := by simpa using hother
      exact hacked
    · rintro other ⟨_, happ', _⟩
      simp at happ'
  · have harrive : connection.arrive wrapped = connection := by
      unfold Connection.arrive
      split <;> simp_all
    rw [harrive]
    exact hsound

/-- Recording an identity keeps the connections that do not need another one under its remote. -/
theorem Sound.store (hsound : connection.Sound wrapped) {remote : String} {identity : Identity}
    (hsafe : connection.remote = remote → ∀ pending, connection.Pending pending → pending = identity) :
    connection.Sound (wrapped.store remote identity) where
  ordered := hsound.ordered
  recorded pending hpending := by
    by_cases hremote : connection.remote = remote
    · rw [hremote, Wrapped.gate_store_self, hsafe hremote pending hpending]
    · rw [Wrapped.gate_store_of_ne _ _ hremote]
      exact hsound.recorded pending hpending

/-- Storing the identity of a connection makes the gate answer with it. -/
theorem Sound.markStored (hsound : connection.Sound wrapped) {identity : Identity}
    (hserve : connection.serve = .authenticated identity) :
    connection.markStored.Sound (wrapped.store connection.remote identity) := by
  have hmark : connection.markStored = { connection with serve := .stored identity } := by
    simp [Connection.markStored, hserve]
  rw [hmark]
  refine ⟨hsound.ordered.with_serve (by simp [hserve]) _, ?_⟩
  rintro other ⟨hother, _⟩
  obtain rfl : identity = other := by simpa using hother
  exact Wrapped.gate_store_self _ _ _

end Connection

namespace Carrier

variable {carrier : Carrier}

theorem recording_eq_some {index : ℕ} {remote : String} {identity : Identity}
    (hrecording : carrier.recording index = some (remote, identity)) :
    ∃ connection, carrier.connections[index]? = some connection ∧ connection.remote = remote ∧
      connection.serve = .authenticated identity := by
  unfold recording at hrecording
  split at hrecording
  · next remote' dial identity' app hindex =>
    obtain ⟨rfl, rfl⟩ : remote' = remote ∧ identity' = identity := by simpa using hrecording
    exact ⟨_, hindex, rfl, rfl⟩
  · cases hrecording

/-- Recording an identity replaces no other identity that a pending connection of the same remote
still needs. -/
def StoreSafe (carrier : Carrier) : CarrierAction → Prop
  | .store index => ∀ remote identity, carrier.recording index = some (remote, identity) →
      ∀ other ∈ carrier.connections, other.remote = remote →
        ∀ pending, other.Pending pending → pending = identity
  | _ => True

/-- What one safe step preserves. -/
theorem sound_step {action : CarrierAction} (hsafe : carrier.StoreSafe action)
    (hsound : ∀ connection ∈ carrier.connections, connection.Sound carrier.wrapped) :
    ∀ connection ∈ (carrier.step action).connections,
      connection.Sound (carrier.step action).wrapped := by
  cases action with
  | dial remote result =>
    intro connection hmem
    rcases List.mem_append.mp hmem with hold | hnew
    · exact hsound connection hold
    · rw [List.mem_singleton.mp hnew]
      exact .start remote result
  | clientHandshake index result =>
    exact forall_mem_modify hsound index fun _ h ↦ h.clientHandshake result
  | serverHandshake index result =>
    exact forall_mem_modify hsound index fun _ h ↦ h.serverHandshake result
  | store index =>
    rw [step]
    split
    · next remote identity hrecording =>
      have hothers : ∀ connection ∈ carrier.connections,
          connection.Sound (carrier.wrapped.store remote identity) := fun connection hmem ↦
        (hsound connection hmem).store (hsafe remote identity hrecording connection hmem)
      intro connection hmem
      rcases mem_modify hmem with hold | ⟨before, hbefore, rfl⟩
      · exact hothers connection hold
      · obtain ⟨recorded, hrecorded, rfl, hserve⟩ := recording_eq_some hrecording
        obtain rfl : recorded = before := Option.some.inj (hrecorded.symm.trans hbefore)
        exact (hsound recorded (List.mem_of_getElem? hbefore)).markStored hserve
    · exact hsound
  | ack index => exact forall_mem_modify hsound index fun _ h ↦ h.ack
  | readAck index => exact forall_mem_modify hsound index fun _ h ↦ h.readAck
  | openStream index result =>
    exact forall_mem_modify hsound index fun _ h ↦ h.openStream result
  | arrive index => exact forall_mem_modify hsound index fun _ h ↦ h.arrive

/-- While no stored identity replaces one that is still needed, every connection is sound. -/
theorem sound_of_reachable (hreach : (machine.restrict StoreSafe).Reachable carrier) :
    ∀ connection ∈ carrier.connections, connection.Sound carrier.wrapped := by
  refine hreach.invariant (P := fun carrier ↦
    ∀ connection ∈ carrier.connections, connection.Sound carrier.wrapped) ?_ ?_
  · intro connection hmem
    cases hmem
  · intro carrier action _ ih hallowed
    exact sound_step hallowed.2 ih

/-- When no step replaces an identity that is still needed, every application stream is admitted
under the identity that its own dial's `ServerHandshake` returned. -/
theorem admitted_under_own_identity (hreach : (machine.restrict StoreSafe).Reachable carrier) :
    ∀ connection ∈ carrier.connections, connection.app ≠ .refused ∧
      (∀ identity, connection.app = .admitted identity → connection.serve = .acked identity) ∧
      (connection.app = .inFlight → ∃ identity, connection.serve = .acked identity ∧
        (connection.arrive carrier.wrapped).app = .admitted identity) := by
  intro connection hmem
  have hsound := sound_of_reachable hreach connection hmem
  refine ⟨hsound.ordered.refused, hsound.ordered.admitted, fun happ ↦ ?_⟩
  obtain ⟨identity, hacked, hgate⟩ := hsound.gate_eq happ
  exact ⟨identity, hacked, by simp [Connection.arrive, happ, hgate]⟩

/-- A whole dial up to its opened application stream. -/
def completeDial (index : ℕ) (identity : Identity) : List CarrierAction :=
  [.clientHandshake index (.ok identity), .serverHandshake index (.ok identity), .store index,
    .ack index, .readAck index, .openStream index (.ok ())]

def ownerIdentity : Identity := ⟨"owner", ⟨true, true, true⟩⟩

def viewerIdentity : Identity := ⟨"viewer", ⟨false, false, false⟩⟩

/-- Two logins over one gateway, one after the other. -/
def sequentialLogins : List CarrierAction :=
  [.dial "gateway" (.ok ()), .dial "gateway" (.ok ())] ++ completeDial 0 viewerIdentity ++
    [.arrive 0] ++ completeDial 1 ownerIdentity

theorem sequentialLogins_legal :
    (machine.restrict StoreSafe).Legal machine.init sequentialLogins := by
  simp [sequentialLogins, completeDial, Machine.Legal, Machine.restrict, machine, step, StoreSafe,
    recording, update, Connection.start, Connection.clientHandshake, Connection.serverHandshake,
    Connection.markStored, Connection.ack, Connection.readAck, Connection.openStream,
    Connection.arrive, Connection.Pending, DialPhase.finishHandshake, ServePhase.finishHandshake,
    ServePhase.readAck, DialPhase.checkAck]

theorem admitted_under_own_identity_sequential :
    (machine.run machine.init sequentialLogins).connections.map Connection.app =
        [.admitted viewerIdentity, .inFlight] ∧
      ∀ connection ∈ (machine.run machine.init sequentialLogins).connections,
        connection.app ≠ .refused ∧
        (∀ identity, connection.app = .admitted identity → connection.serve = .acked identity) ∧
        (connection.app = .inFlight → ∃ identity, connection.serve = .acked identity ∧
          (connection.arrive (machine.run machine.init sequentialLogins).wrapped).app =
            .admitted identity) :=
  ⟨by decide, admitted_under_own_identity (Machine.Reachable.init.run sequentialLogins_legal)⟩

theorem legal (carrier : Carrier) (actions : List CarrierAction) : machine.Legal carrier actions := by
  induction actions generalizing carrier with
  | nil => trivial
  | cons action rest ih => exact ⟨trivial, ih _⟩

/-- Two logins over one gateway, the owner's recorded between the viewer's acknowledgement and the
arrival of the viewer's application stream. -/
def overlappingLogins : List CarrierAction :=
  [.dial "gateway" (.ok ()), .dial "gateway" (.ok ())] ++ completeDial 0 viewerIdentity ++
    [.clientHandshake 1 (.ok ownerIdentity), .serverHandshake 1 (.ok ownerIdentity), .store 1,
      .arrive 0]

/-- Behind one transport, a viewer's stream can be let through as the owner's. -/
theorem viewer_admitted_as_owner :
    ∃ carrier, machine.Reachable carrier ∧
      (∀ connection ∈ carrier.connections, connection.remote = "gateway") ∧
      ∃ connection ∈ carrier.connections, connection.serve = .acked viewerIdentity ∧
        connection.app = .admitted ownerIdentity :=
  ⟨machine.run machine.init overlappingLogins, Machine.Reachable.init.run (legal _ _), by decide,
    by decide⟩

end Carrier

end Mosey.Auth
