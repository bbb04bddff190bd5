import Mosey.Auth.WalletPolicy
import Mosey.Auth.Wrap

/-!
# The gate over time

Remotes run wallet handshakes and open application streams in any order, while the clock advances
and the snapshot source answers from an arbitrary history. `Serve` records the identity of each
successful handshake, and the gate of `Handle` admits an application stream under whatever is
recorded for its remote.

The gate keeps no chain and reads no clock. A stream is admitted under the identity of its remote's
latest successful handshake, whose chain was folded when that handshake ran; nothing is folded again
when the stream opens, so an identity outlives the chain it came from.
-/

namespace Mosey.Auth

open Library Wallet

/-- What the snapshot source answers at each time. -/
structure SourceHistory where
  snapshotAt : Time → Except String (Snapshot × Bool)
  verifyAt : Time → PublicKey → Except String (Caps × Bool)

/-- When a handshake read the snapshot, folded, asked the source and folded again. -/
structure ResolveClock where
  readAt : Time
  foldAt : Time
  askedAt : Time
  refoldAt : Time
  allow : Bool

def SourceHistory.env (source : SourceHistory) (clock : ResolveClock) : ResolveEnv where
  snapshot := source.snapshotAt clock.readAt
  foldAt := clock.foldAt
  allow := clock.allow
  verifyNow := source.verifyAt clock.askedAt
  refoldAt := clock.refoldAt

structure ResolveClock.Before (clock : ResolveClock) (limit : Time) : Prop where
  fold : clock.readAt ≤ clock.foldAt
  asked : clock.foldAt ≤ clock.askedAt
  refold : clock.askedAt ≤ clock.refoldAt
  limit : clock.refoldAt ≤ limit

/-- A successful handshake, with the time `Serve` recorded it. -/
structure Served (Signature : Type) where
  remote : String
  connPub : PublicKey
  chain : List (Delegation Signature)
  clock : ResolveClock
  identity : Identity
  storedAt : Time

/-- An admitted application stream, with the number of handshakes recorded before it. -/
structure Opened where
  remote : String
  identity : Identity
  openedAt : Time
  handshakes : ℕ

structure GateRun (Signature : Type) where
  now : Time
  wrapped : Wrapped
  served : List (Served Signature)
  opened : List Opened

inductive GateAction (Signature : Type)
  | tick (later : Time)
  | serve (remote : String) (connPub : PublicKey) (chain : List (Delegation Signature))
      (clock : ResolveClock)
  | openStream (remote : String)

/-- The latest handshake recorded for a remote. -/
def lastServed {Signature : Type} (served : List (Served Signature)) (remote : String) :
    Option (Served Signature) :=
  (served.filter fun handshake ↦ handshake.remote = remote).getLast?

namespace GateRun

variable {Private Signature : Type} (crypto : Ed25519 Private Signature)
variable (server : WalletServer Private) (source : SourceHistory) (start : Time)

/-- The handler of `Serve` on an auth stream whose client has proved `connPub`. -/
def serve (state : GateRun Signature) (remote : String) (connPub : PublicKey)
    (chain : List (Delegation Signature)) (clock : ResolveClock) : GateRun Signature :=
  match (resolveIdentity crypto server.limited (crypto.publicKey server.sessionPriv) (source.env clock)
      chain connPub).1 with
  | .ok identity =>
    { state with
      wrapped := state.wrapped.store remote identity
      served := state.served ++ [⟨remote, connPub, chain, clock, identity, state.now⟩] }
  | .error _ => state

/-- The gate of `Handle` on an application stream. -/
def openStream (state : GateRun Signature) (remote : String) : GateRun Signature :=
  match state.wrapped.gate remote with
  | some identity =>
    { state with
      opened := state.opened ++ [⟨remote, identity, state.now, state.served.length⟩] }
  | none => state

def step (state : GateRun Signature) : GateAction Signature → GateRun Signature
  | .tick later => { state with now := later }
  | .serve remote connPub chain clock => state.serve crypto server source remote connPub chain clock
  | .openStream remote => state.openStream remote

def allowed (state : GateRun Signature) : GateAction Signature → Prop
  | .tick later => state.now ≤ later
  | .serve _ _ _ clock => clock.Before state.now
  | .openStream _ => True

def machine : Machine (GateRun Signature) (GateAction Signature) where
  init := ⟨start, .wrap, [], []⟩
  allowed := allowed
  step := step crypto server source

end GateRun

section Gate

variable {Private Signature : Type} (crypto : Ed25519 Private Signature)
variable (server : WalletServer Private) (source : SourceHistory) {start : Time}

/-- The chain of the handshake folded to the caps of its identity when the handshake ran. -/
def FoldedThen (handshake : Served Signature) : Prop :=
  ∃ snap root caps isOwner, source.snapshotAt handshake.clock.readAt = .ok (snap, true) ∧
    chainRoot handshake.chain = .ok root ∧ handshake.identity = walletIdentity caps isOwner root ∧
    (fold crypto handshake.chain handshake.connPub (crypto.publicKey server.sessionPriv) snap
        handshake.clock.foldAt = (caps, isOwner, none) ∨
      ∃ asked, source.verifyAt handshake.clock.askedAt root = .ok (asked, true) ∧
        fold crypto handshake.chain handshake.connPub (crypto.publicKey server.sessionPriv)
          (overlaySnapshot snap root asked) handshake.clock.refoldAt = (caps, isOwner, none))

/-- The chain of the handshake folds at `now`, against the snapshot of `now`, to an identity with at
least the caps of the handshake's. -/
def StillFolds (handshake : Served Signature) (now : Time) : Prop :=
  ∃ snap fresh root caps isOwner, source.snapshotAt now = .ok (snap, fresh) ∧
    chainRoot handshake.chain = .ok root ∧
    fold crypto handshake.chain handshake.connPub (crypto.publicKey server.sessionPriv) snap now =
      (caps, isOwner, none) ∧
    handshake.identity.caps.owner ≤ (walletIdentity caps isOwner root).caps.owner ∧
    handshake.identity.caps.write ≤ (walletIdentity caps isOwner root).caps.write ∧
    handshake.identity.caps.resize ≤ (walletIdentity caps isOwner root).caps.resize

/-- The stream was admitted under the identity of its remote's latest handshake of that time. -/
def OpenedUnder (served : List (Served Signature)) (stream : Opened)
    (handshake : Served Signature) : Prop :=
  lastServed (served.take stream.handshakes) stream.remote = some handshake ∧
    stream.identity = handshake.identity ∧ handshake.storedAt ≤ stream.openedAt

/-- What holds of every reachable state. -/
structure GateInvariant (state : GateRun Signature) : Prop where
  table : ∀ remote, state.wrapped.gate remote =
    (lastServed state.served remote).map Served.identity
  served : ∀ handshake ∈ state.served, FoldedThen crypto server source handshake ∧
    handshake.clock.Before handshake.storedAt ∧ handshake.storedAt ≤ state.now
  opened : ∀ stream ∈ state.opened, stream.handshakes ≤ state.served.length ∧
    ∃ handshake, OpenedUnder state.served stream handshake

variable {crypto server source}

/-- The handshake served last on a transport is the newest one of that transport. -/
theorem lastServed_concat (served : List (Served Signature)) (handshake : Served Signature)
    (remote : String) :
    lastServed (served ++ [handshake]) remote =
      if handshake.remote = remote then some handshake else lastServed served remote := by
  unfold lastServed
  rw [List.filter_append]
  split_ifs with hremote
  · simp [hremote]
  · simp [hremote]

variable {remote : String} {chain : List (Delegation Signature)} {clock : ResolveClock}
  {connPub : PublicKey} {identity : Identity} {state : GateRun Signature}

theorem mem_of_lastServed {served : List (Served Signature)} {handshake : Served Signature}
    (hlast : lastServed served remote = some handshake) : handshake ∈ served := by
  have hfiltered := List.mem_of_getLast? hlast
  exact (List.mem_filter.mp hfiltered).1

/-- A later handshake does not change the one that a stream was opened under. -/
theorem OpenedUnder.concat {served : List (Served Signature)} {stream : Opened}
    {handshake : Served Signature} (hunder : OpenedUnder served stream handshake)
    (hlength : stream.handshakes ≤ served.length) (later : Served Signature) :
    OpenedUnder (served ++ [later]) stream handshake := by
  unfold OpenedUnder
  rw [List.take_append_of_le_length hlength]
  exact hunder

/-- An identity that was resolved comes from a chain that folds at the clock of the handshake. -/
theorem foldedThen_of_resolveIdentity {storedAt : Time}
    (hresolved : (resolveIdentity crypto server.limited (crypto.publicKey server.sessionPriv)
      (source.env clock) chain connPub).1 = .ok identity) :
    FoldedThen crypto server source ⟨remote, connPub, chain, clock, identity, storedAt⟩ := by
  obtain ⟨snap, root, caps, isOwner, hsnapshot, hroot, hidentity, hcases⟩ :=
    resolveIdentity_eq_ok (Prod.ext hresolved rfl)
  refine ⟨snap, root, caps, isOwner, hsnapshot, hroot, hidentity, ?_⟩
  rcases hcases with ⟨_, hfold⟩ | ⟨asked, _, _, _, hverify, hfold⟩
  · exact .inl hfold
  · exact .inr ⟨asked, hverify, hfold⟩

theorem GateRun.serve_of_resolveIdentity
    (hresolved : (resolveIdentity crypto server.limited (crypto.publicKey server.sessionPriv)
      (source.env clock) chain connPub).1 = .ok identity) :
    state.serve crypto server source remote connPub chain clock =
      { state with
        wrapped := state.wrapped.store remote identity
        served := state.served ++ [⟨remote, connPub, chain, clock, identity, state.now⟩] } := by
  rw [serve, hresolved]

theorem GateInvariant.tick (hinvariant : GateInvariant crypto server source state) {later : Time}
    (hlater : state.now ≤ later) :
    GateInvariant crypto server source { state with now := later } where
  table := hinvariant.table
  served handshake hmem := by
    obtain ⟨hfolded, hbefore, hstored⟩ := hinvariant.served handshake hmem
    exact ⟨hfolded, hbefore, hstored.trans hlater⟩
  opened := hinvariant.opened

/-- A handshake replaces what is stored for its own transport alone. -/
theorem GateInvariant.serve (hinvariant : GateInvariant crypto server source state)
    (hclock : clock.Before state.now) :
    GateInvariant crypto server source
      (state.serve crypto server source remote connPub chain clock) := by
  unfold GateRun.serve
  split
  · next identity hresolved =>
    refine ⟨?_, ?_, ?_⟩
    · intro other
      dsimp only
      rw [lastServed_concat]
      by_cases hother : remote = other
      · rw [if_pos hother, hother, Wrapped.gate_store_self]
        rfl
      · rw [if_neg hother, Wrapped.gate_store_of_ne _ _ (Ne.symm hother)]
        exact hinvariant.table other
    · intro handshake hmem
      rcases List.mem_append.mp hmem with hold | hnew
      · exact hinvariant.served handshake hold
      · rw [List.mem_singleton.mp hnew]
        exact ⟨foldedThen_of_resolveIdentity hresolved, hclock, le_refl _⟩
    · intro stream hmem
      obtain ⟨hlength, handshake, hunder⟩ := hinvariant.opened stream hmem
      refine ⟨?_, handshake, hunder.concat hlength _⟩
      rw [List.length_append]
      exact hlength.trans (Nat.le_add_right _ _)
  · exact hinvariant

theorem GateInvariant.openStream (hinvariant : GateInvariant crypto server source state)
    (remote : String) : GateInvariant crypto server source (state.openStream remote) := by
  unfold GateRun.openStream
  split
  · next identity hgate =>
    refine ⟨hinvariant.table, hinvariant.served, ?_⟩
    intro stream hmem
    rcases List.mem_append.mp hmem with hold | hnew
    · exact hinvariant.opened stream hold
    · rw [List.mem_singleton.mp hnew]
      refine ⟨le_refl _, ?_⟩
      rw [hinvariant.table] at hgate
      obtain ⟨handshake, hlast, hidentity⟩ := Option.map_eq_some_iff.mp hgate
      have hstored := (hinvariant.served handshake (mem_of_lastServed hlast)).2.2
      refine ⟨handshake, ?_, hidentity.symm, hstored⟩
      rw [List.take_length]
      exact hlast
  · exact hinvariant

/-- What is stored for a transport is the result of the handshake served last on it. -/
theorem gateInvariant (hreach : (GateRun.machine crypto server source start).Reachable state) :
    GateInvariant crypto server source state := by
  refine hreach.invariant (P := GateInvariant crypto server source) ?_ ?_
  · exact ⟨fun _ ↦ rfl, by simp [GateRun.machine], by simp [GateRun.machine]⟩
  intro state action _ ih hallowed
  cases action with
  | tick later => exact ih.tick hallowed
  | serve remote connPub chain clock => exact ih.serve hallowed
  | openStream remote => exact ih.openStream remote

/-- Every admitted stream carries the identity of its remote's latest successful handshake, whose
chain folded to those caps when that handshake ran, at or before the time the stream opened. -/
theorem stream_carries_latest_handshake {state : GateRun Signature}
    (hreach : (GateRun.machine crypto server source start).Reachable state) :
    ∀ stream ∈ state.opened, ∃ handshake, OpenedUnder state.served stream handshake ∧
      FoldedThen crypto server source handshake ∧ handshake.clock.Before stream.openedAt := by
  intro stream hmem
  have hinvariant := gateInvariant hreach
  obtain ⟨_, handshake, hunder⟩ := hinvariant.opened stream hmem
  have hserved := mem_of_lastServed hunder.1
  obtain ⟨hfolded, hbefore, _⟩ := hinvariant.served handshake (List.mem_of_mem_take hserved)
  refine ⟨handshake, hunder, hfolded, hbefore.fold, hbefore.asked, hbefore.refold, ?_⟩
  exact hbefore.limit.trans hunder.2.2

/-- A remote opens a stream at any time after a successful handshake, under the identity of then. -/
theorem GateRun.run_serve_tick_openStream
    (hresolved : (resolveIdentity crypto server.limited (crypto.publicKey server.sessionPriv)
      (source.env clock) chain connPub).1 = .ok identity) (later : Time) :
    (machine crypto server source start).run state
        [.serve remote connPub chain clock, .tick later, .openStream remote] =
      { now := later
        wrapped := state.wrapped.store remote identity
        served := state.served ++ [⟨remote, connPub, chain, clock, identity, state.now⟩]
        opened := state.opened ++ [⟨remote, identity, later, state.served.length + 1⟩] } := by
  rw [Machine.run_cons, Machine.run_cons, Machine.run_cons, Machine.run_nil]
  change openStream { state.serve crypto server source remote connPub chain clock with now := later }
    remote = _
  rw [serve_of_resolveIdentity hresolved, openStream]
  simp

theorem GateRun.legal_serve_tick_openStream (hclock : clock.Before state.now) {later : Time}
    (hlater : state.now ≤ later) :
    (machine crypto server source start).Legal state
      [.serve remote connPub chain clock, .tick later, .openStream remote] := by
  have hnow : (state.serve crypto server source remote connPub chain clock).now = state.now := by
    unfold serve
    split <;> rfl
  refine ⟨hclock, ?_, trivial, trivial⟩
  change (state.serve crypto server source remote connPub chain clock).now ≤ later
  rw [hnow]
  exact hlater

end Gate

section Example

/-- A source that has the owner's snapshot at every time. -/
def exampleSource : SourceHistory := ⟨fun _ ↦ .ok (exampleSnapshot, true), fun _ _ ↦ .error "timeout"⟩

def exampleClock : ResolveClock :=
  ⟨10 * nanosPerSecond, 10 * nanosPerSecond, 10 * nanosPerSecond, 10 * nanosPerSecond, true⟩

/-- A handshake at ten seconds, over a chain that is valid for a hundred, and a stream at two
hundred. -/
def expiredRun : List (GateAction FreeSignature) :=
  [.serve "alice" (freeKey 3).1 [exampleDelegation 1 3 allCaps] exampleClock,
    .tick (200 * nanosPerSecond), .openStream "alice"]

def exampleGate : Machine (GateRun FreeSignature) (GateAction FreeSignature) :=
  GateRun.machine freeEd25519.toEd25519 exampleSession exampleSource (10 * nanosPerSecond)

theorem resolveIdentity_exampleClock : (resolveIdentity freeEd25519.toEd25519 exampleSession.limited
    (freeEd25519.publicKey exampleSession.sessionPriv) (exampleSource.env exampleClock)
    [exampleDelegation 1 3 allCaps] (freeKey 3).1).1 = .ok exampleIdentity := by
  decide +kernel

def expiredHandshake : Served FreeSignature :=
  ⟨"alice", (freeKey 3).1, [exampleDelegation 1 3 allCaps], exampleClock, exampleIdentity,
    10 * nanosPerSecond⟩

def expiredStream : Opened := ⟨"alice", exampleIdentity, 200 * nanosPerSecond, 1⟩

def expiredState : GateRun FreeSignature :=
  ⟨200 * nanosPerSecond, Wrapped.wrap.store "alice" exampleIdentity, [expiredHandshake],
    [expiredStream]⟩

theorem expiredState_reachable : exampleGate.Reachable expiredState := by
  have hrun : exampleGate.run exampleGate.init expiredRun = expiredState :=
    GateRun.run_serve_tick_openStream resolveIdentity_exampleClock (200 * nanosPerSecond)
  rw [← hrun]
  apply Machine.Reachable.init.run
  apply GateRun.legal_serve_tick_openStream
  · exact ⟨le_refl _, le_refl _, le_refl _, le_refl _⟩
  · decide

/-- A remote whose chain has expired opens an application stream without a handshake and is admitted
with the owner's caps. -/
theorem expired_chain_opens_stream : ∃ state stream handshake,
    (GateRun.machine freeEd25519.toEd25519 exampleSession exampleSource
      (10 * nanosPerSecond)).Reachable state ∧
    stream ∈ state.opened ∧ OpenedUnder state.served stream handshake ∧
    ¬ StillFolds freeEd25519.toEd25519 exampleSession exampleSource handshake stream.openedAt := by
  refine ⟨expiredState, expiredStream, expiredHandshake, expiredState_reachable,
    List.mem_singleton_self _, ⟨rfl, rfl, by decide⟩, ?_⟩
  have hrejected : (fold freeEd25519.toEd25519 [exampleDelegation 1 3 allCaps] (freeKey 3).1
      (freeKey 2).1 exampleSnapshot (200 * nanosPerSecond)).2.2.isSome = true := by
    decide +kernel
  intro hstill
  obtain ⟨snap, fresh, root, caps, isOwner, hsnapshot, _, hfold, _⟩ := hstill
  obtain ⟨rfl, _⟩ := Prod.mk.inj (Except.ok.inj hsnapshot)
  change fold freeEd25519.toEd25519 [exampleDelegation 1 3 allCaps] (freeKey 3).1 (freeKey 2).1
    exampleSnapshot (200 * nanosPerSecond) = (caps, isOwner, none) at hfold
  rw [hfold] at hrejected
  cases hrejected

theorem stream_carries_latest_handshake_expired :
    ∃ handshake, OpenedUnder expiredState.served expiredStream handshake ∧
      FoldedThen freeEd25519.toEd25519 exampleSession exampleSource handshake ∧
      handshake.clock.Before expiredStream.openedAt :=
  stream_carries_latest_handshake expiredState_reachable expiredStream (List.mem_singleton_self _)

end Example

end Mosey.Auth
