import Mosey.Auth.WalletNetwork
import Mosey.Auth.Wrap

/-!
# Wallet identities and the connection they are recorded for

`Serve` runs the wallet handshake on an auth stream and records the returned identity under the
`RemoteID` that the stream's transport reports. The machine below joins the handshakes of all parties,
with the adversary of `WalletNetwork`, to the identity tables of all session hosts.

Neither transcript mentions the transport. A host that a client dials can therefore pass the
handshake on, message by message, to a session host, which records the client's identity for the
host in between. As long as no hello is passed on to a stream of another transport, every identity is
recorded for the transport of the client that proved it.
-/

namespace Mosey.Auth

open Library Wallet

section Carrier

variable {Private Signature : Type} (crypto : IdealEd25519 Private Signature)
variable (corrupt : PublicKey → Prop)

/-- The handshakes, the identity table of each session host and the sessions recorded so far. -/
structure WalletCarrier (Private Signature : Type) where
  world : WalletWorld Private Signature
  tables : PublicKey → Wrapped
  recorded : List ℕ

inductive WalletCarrierAction (Private Signature : Type)
  | handshake (action : NetworkAction (WalletRole Private Signature) (WalletSegment Signature))
  | record (index : ℕ)

/-- The session key and the identity of a `ServerHandshake` that returned one. -/
def returned (session : WalletSession Private Signature) : Option (PublicKey × Identity) :=
  match (walletNetwork crypto corrupt).state session with
  | .serverVerified server _ _ _ _ (.ok identity) =>
    some (crypto.publicKey server.sessionPriv, identity)
  | _ => none

def returnedAt (world : WalletWorld Private Signature) (index : ℕ) :
    Option (PublicKey × Identity) :=
  world[index]?.bind (returned crypto corrupt)

namespace WalletCarrier

variable (remoteID : ℕ → String)

/-- The map write of `Serve` on session `index`. -/
def record (state : WalletCarrier Private Signature) (index : ℕ) : WalletCarrier Private Signature :=
  match returnedAt crypto corrupt state.world index with
  | some (sessionKey, identity) =>
    { state with
      tables := fun key ↦
        if key = sessionKey then (state.tables key).store (remoteID index) identity
        else state.tables key
      recorded := state.recorded ++ [index] }
  | none => state

def step (state : WalletCarrier Private Signature) :
    WalletCarrierAction Private Signature → WalletCarrier Private Signature
  | .handshake action => { state with world := Network.step state.world action }
  | .record index => state.record crypto corrupt remoteID index

def allowed (state : WalletCarrier Private Signature) :
    WalletCarrierAction Private Signature → Prop
  | .handshake action => (walletNetwork crypto corrupt).allowed state.world action
  | .record index => index ∉ state.recorded ∧ (returnedAt crypto corrupt state.world index).isSome

/-- Session `index` runs over a transport whose id is `remoteID index`: the dialer's own for a client,
and the one the opened stream reports for a server. -/
def machine : Machine (WalletCarrier Private Signature) (WalletCarrierAction Private Signature) where
  init := ⟨[], fun _ ↦ .wrap, []⟩
  allowed := allowed crypto corrupt
  step := step crypto corrupt remoteID

end WalletCarrier

/-- The connection key and the nonce of the hello that a segment reads. -/
def helloOf (io : WalletSegment Signature) : Option (Bytes × Bytes) :=
  match io.read with
  | .ok (.hello connPub nonceC _) => some (connPub, nonceC)
  | _ => none

def WalletRole.isServer : WalletRole Private Signature → Bool
  | .server _ => true
  | _ => false

def WalletRole.connPub : WalletRole Private Signature → Option PublicKey
  | .client opts => some (crypto.publicKey opts.connPriv)
  | _ => none

/-- The session is a client that sent this hello. -/
def SentHello (session : WalletSession Private Signature) (hello : Bytes × Bytes) : Prop :=
  session.role.connPub crypto = some hello.1 ∧ Drawn session.inputs hello.2

/-- The session is a server that was opened with this hello. -/
def HeardHello (session : WalletSession Private Signature) (hello : Bytes × Bytes) : Prop :=
  session.role.isServer = true ∧ ∃ chain, ReadAt session.inputs 0 (.hello hello.1 hello.2 chain)

/-- A server that awaits its hello is not handed one that a client sent over another transport. -/
def Unrelayed (remoteID : ℕ → String) (state : WalletCarrier Private Signature) :
    WalletCarrierAction Private Signature → Prop
  | .handshake (.feed index io) => ∀ session ∈ state.world[index]?,
      session.role.isServer = true → session.inputs.length = 0 → ∀ hello ∈ helloOf io,
        ∀ position ∈ List.range state.world.length, ∀ client ∈ state.world[position]?,
          SentHello crypto client hello → remoteID position = remoteID index
  | _ => True

instance (inputs : List (WalletSegment Signature)) (nonce : Bytes) : Decidable (Drawn inputs nonce) :=
  inferInstanceAs (Decidable (∃ io ∈ inputs, nonce ∈ io.draws))

instance (session : WalletSession Private Signature) (hello : Bytes × Bytes) :
    Decidable (SentHello crypto session hello) :=
  inferInstanceAs (Decidable (_ ∧ _))

instance (remoteID : ℕ → String) (state : WalletCarrier Private Signature) :
    (action : WalletCarrierAction Private Signature) →
      Decidable (Unrelayed crypto remoteID state action)
  | .handshake (.feed index _) =>
    inferInstanceAs (Decidable (∀ session ∈ state.world[index]?, _ → _ → ∀ hello ∈ _, _))
  | .handshake (.spawn _) => .isTrue trivial
  | .record _ => .isTrue trivial

/-- Every hello that a server was opened with came over the transport of the client that sent it. -/
def HellosDirect (remoteID : ℕ → String) (world : WalletWorld Private Signature) : Prop :=
  ∀ (index position : ℕ) (server client : WalletSession Private Signature) (hello : Bytes × Bytes),
    world[index]? = some server → world[position]? = some client → HeardHello server hello →
      SentHello crypto client hello → remoteID position = remoteID index

/-- Every entry of a table was recorded from a handshake of that table's host over that transport. -/
def TablesRecorded (remoteID : ℕ → String) (state : WalletCarrier Private Signature) : Prop :=
  ∀ sessionKey remote identity, (state.tables sessionKey).gate remote = some identity →
    ∃ index ∈ state.recorded, remoteID index = remote ∧
      returnedAt crypto corrupt state.world index = some (sessionKey, identity)

/-- Every recorded identity of an uncorrupted connection key was proved by a client of that key over
the transport it is recorded for. -/
structure RecordsBound (remoteID : ℕ → String) (state : WalletCarrier Private Signature) : Prop where
  tables : TablesRecorded crypto corrupt remoteID state
  proved : ∀ index ∈ state.recorded, ∀ sessionKey connPub nonceC nonceS, ¬ corrupt connPub →
    ServerAccepted crypto corrupt state.world index sessionKey connPub nonceC nonceS →
      ∃ client, ClientAgreed crypto corrupt state.world client sessionKey connPub nonceC nonceS ∧
        remoteID client = remoteID index

variable {crypto corrupt} {remoteID : ℕ → String}

variable {session : WalletSession Private Signature} {io : WalletSegment Signature}
  {hello : Bytes × Bytes} {world : WalletWorld Private Signature}

theorem SentHello.of_extend (hsent : SentHello crypto (Network.extend io session) hello) :
    SentHello crypto session hello ∨ hello.2 ∈ io.draws := by
  obtain ⟨hkey, earlier, hmem, hnonce⟩ := hsent
  rcases List.mem_append.mp hmem with hold | hnew
  · exact .inl ⟨hkey, earlier, hold, hnonce⟩
  · rw [List.mem_singleton.mp hnew] at hnonce
    exact .inr hnonce

/-- A session hears a hello in its first segment only. -/
theorem HeardHello.of_extend (hheard : HeardHello (Network.extend io session) hello) :
    HeardHello session hello ∨ session.inputs.length = 0 ∧ hello ∈ helloOf io := by
  obtain ⟨hserver, chain, first, hfirst, hread⟩ := hheard
  rcases getElem?_concat_eq_some.mp hfirst with hfirst | ⟨hnone, rfl⟩
  · exact .inl ⟨hserver, chain, first, hfirst, hread⟩
  · refine .inr ⟨hnone.symm, ?_⟩
    rw [helloOf, hread]
    rfl

/-- A nonce that some session has heard is not fresh. -/
theorem HeardHello.not_fresh (hheard : HeardHello session hello) (hmem : session ∈ world) :
    ¬ (walletNetwork crypto corrupt).Fresh world hello.2 := by
  obtain ⟨_, chain, io, hio, hread⟩ := hheard
  intro hfresh
  have hnonces := (hfresh session hmem io (List.mem_of_getElem? hio)).2
  simp only [walletNetwork, hread] at hnonces
  exact hnonces (List.mem_singleton_self _)

theorem not_heard_and_sent {key : PublicKey} (hserver : session.role.isServer = true) :
    session.role.connPub crypto ≠ some key := by
  cases hrole : session.role with
  | server _ => simp [WalletRole.connPub]
  | client | delegator => simp [hrole, WalletRole.isServer] at hserver

/-- Feeding one session keeps hellos direct: a nonce drawn now has never been heard, and a hello
heard now meets the condition. -/
theorem HellosDirect.feed {state : WalletCarrier Private Signature}
    (hdirect : HellosDirect crypto remoteID state.world) {fed : ℕ}
    (hfresh : ∀ nonce ∈ io.draws, (walletNetwork crypto corrupt).Fresh state.world nonce)
    (hcondition : Unrelayed crypto remoteID state (.handshake (.feed fed io))) :
    HellosDirect crypto remoteID (Network.step state.world (.feed fed io)) := by
  intro index position server client hello hserver hclient hheard hsent
  rw [Network.getElem?_step_feed] at hserver hclient
  split at hserver
  · next hindex =>
    obtain ⟨before, hbefore, rfl⟩ := Option.map_eq_some_iff.mp hserver
    split at hclient
    · next hposition =>
      -- one session cannot be both the server and the client
      obtain ⟨before', hbefore', rfl⟩ := Option.map_eq_some_iff.mp hclient
      rw [← hindex.symm.trans hposition, hbefore] at hbefore'
      rw [← Option.some.inj hbefore'] at hsent
      exact absurd hsent.1 (not_heard_and_sent hheard.1)
    · rcases hheard.of_extend with hearlier | ⟨hempty, hnow⟩
      · exact hdirect index position before client hello hbefore hclient hearlier hsent
      · have hrange := List.mem_range.mpr (List.getElem?_eq_some_iff.mp hclient).1
        rw [← hindex] at hbefore ⊢
        exact hcondition before hbefore hheard.1 hempty hello hnow position hrange client hclient
          hsent
  · split at hclient
    · obtain ⟨before, hbefore, rfl⟩ := Option.map_eq_some_iff.mp hclient
      rcases hsent.of_extend with hearlier | hnow
      · exact hdirect index position server before hello hserver hbefore hheard hearlier
      · exact absurd (hfresh hello.2 hnow) (hheard.not_fresh (List.mem_of_getElem? hserver))
    · exact hdirect index position server client hello hserver hclient hheard hsent

/-- A new session has neither sent nor heard a hello. -/
theorem HellosDirect.spawn (hdirect : HellosDirect crypto remoteID world)
    (role : WalletRole Private Signature) :
    HellosDirect crypto remoteID (Network.step world (.spawn role)) := by
  intro index position server client hello hserver hclient hheard hsent
  rcases getElem?_concat_eq_some.mp hserver with hserver | ⟨_, rfl⟩
  · rcases getElem?_concat_eq_some.mp hclient with hclient | ⟨_, rfl⟩
    · exact hdirect index position server client hello hserver hclient hheard hsent
    · obtain ⟨_, _, hinput, _⟩ := hsent
      cases hinput
  · obtain ⟨_, _, _, hinput, _⟩ := hheard
    cases hinput

namespace WalletCarrier

variable {state : WalletCarrier Private Signature}

/-- The record of a handshake that has returned. -/
theorem record_of_returnedAt {index : ℕ} {sessionKey : PublicKey} {identity : Identity}
    (hreturned : returnedAt crypto corrupt state.world index = some (sessionKey, identity)) :
    state.record crypto corrupt remoteID index =
      ⟨state.world, fun key ↦
        if key = sessionKey then (state.tables key).store (remoteID index) identity
        else state.tables key, state.recorded ++ [index]⟩ := by
  rw [record, hreturned]

@[simp] theorem record_world (state : WalletCarrier Private Signature) (index : ℕ) :
    (state.record crypto corrupt remoteID index).world = state.world := by
  unfold record
  split <;> rfl

/-- The handshakes of the carrier are a run of the network. -/
theorem world_reachable (hreach : (machine crypto corrupt remoteID).Reachable state) :
    (walletNetwork crypto corrupt).machine.Reachable state.world := by
  refine hreach.invariant (P := fun state ↦
    (walletNetwork crypto corrupt).machine.Reachable state.world) .init ?_
  intro state action _ ih hallowed
  cases action with
  | handshake action => exact ih.step hallowed
  | record index =>
    change (walletNetwork crypto corrupt).machine.Reachable (state.record _ _ _ index).world
    rw [record_world]
    exact ih

/-- With no relayed handshake, every hello is heard on the transport of its sender. -/
theorem hellosDirect
    (hreach : ((machine crypto corrupt remoteID).restrict (Unrelayed crypto remoteID)).Reachable
      state) : HellosDirect crypto remoteID state.world := by
  refine hreach.invariant (P := fun state ↦ HellosDirect crypto remoteID state.world) ?_ ?_
  · intro index position server client hello hserver
    cases hserver
  intro state action _ ih hallowed
  cases action with
  | handshake action =>
    cases action with
    | spawn role => exact ih.spawn role
    | feed fed io => exact ih.feed hallowed.1.1 hallowed.2
  | record index =>
    change HellosDirect crypto remoteID (state.record _ _ _ index).world
    rw [record_world]
    exact ih

/-- A handshake that has returned does not change any more. -/
theorem returnedAt_step {world : WalletWorld Private Signature} {index : ℕ}
    {result : PublicKey × Identity} (hreturned : returnedAt crypto corrupt world index = some result)
    (action : NetworkAction (WalletRole Private Signature) (WalletSegment Signature)) :
    returnedAt crypto corrupt (Network.step world action) index = some result := by
  obtain ⟨session, hsession, hresult⟩ := Option.bind_eq_some_iff.mp hreturned
  unfold returnedAt
  cases action with
  | spawn role =>
    rw [Network.step, getElem?_append_of_eq_some hsession]
    exact hresult
  | feed fed io =>
    rw [Network.getElem?_step_feed, hsession]
    split
    · have hstate : (walletNetwork crypto corrupt).state (Network.extend io session) =
          (walletNetwork crypto corrupt).state session := by
        rw [Network.extend, Protocol.state_concat]
        unfold returned at hresult
        split at hresult
        · next hverified => rw [hverified]; rfl
        · cases hresult
      change returned crypto corrupt (Network.extend io session) = some result
      rw [returned, hstate]
      exact hresult
    · exact hresult

theorem TablesRecorded.record (htables : TablesRecorded crypto corrupt remoteID state) (index : ℕ) :
    TablesRecorded crypto corrupt remoteID (state.record crypto corrupt remoteID index) := by
  intro sessionKey remote identity hgate
  unfold WalletCarrier.record at hgate ⊢
  split at hgate
  · next key stored hreturned =>
    have hold : (state.tables sessionKey).gate remote = some identity →
        ∃ index' ∈ state.recorded ++ [index], remoteID index' = remote ∧
          returnedAt crypto corrupt state.world index' = some (sessionKey, identity) := by
      intro hbefore
      obtain ⟨earlier, hmem, hrest⟩ := htables sessionKey remote identity hbefore
      exact ⟨earlier, List.mem_append_left _ hmem, hrest⟩
    dsimp only at hgate
    split_ifs at hgate with hkey
    · by_cases hremote : remote = remoteID index
      · rw [hremote, Wrapped.gate_store_self] at hgate
        refine ⟨index, by simp, hremote.symm, ?_⟩
        rw [hreturned, hkey, Option.some.inj hgate]
      · rw [Wrapped.gate_store_of_ne _ _ hremote] at hgate
        exact hold hgate
    · exact hold hgate
  · exact htables sessionKey remote identity hgate

/-- Every identity in a table was recorded by a handshake that returned it. -/
theorem tablesRecorded (hreach : (machine crypto corrupt remoteID).Reachable state) :
    TablesRecorded crypto corrupt remoteID state := by
  refine hreach.invariant (P := TablesRecorded crypto corrupt remoteID) ?_ ?_
  · intro sessionKey remote identity hgate
    cases hgate
  intro state action _ ih _
  cases action with
  | handshake action =>
    intro sessionKey remote identity hgate
    obtain ⟨index, hmem, hremote, hreturned⟩ := ih sessionKey remote identity hgate
    exact ⟨index, hmem, hremote, returnedAt_step hreturned action⟩
  | record index => exact TablesRecorded.record ih index

end WalletCarrier

theorem ServerAccepted.heardHello {index : ℕ} {sessionKey connPub nonceC nonceS : Bytes}
    (haccepted : ServerAccepted crypto corrupt world index sessionKey connPub nonceC nonceS) :
    ∃ session, world[index]? = some session ∧ HeardHello session (connPub, nonceC) := by
  obtain ⟨session, server, chain, result, hindex, _, hchallenged, _⟩ := haccepted.challenged
  refine ⟨session, hindex, ?_, chain, hchallenged.heard⟩
  rw [hchallenged.configured]
  rfl

theorem ClientAgreed.sentHello {index : ℕ} {sessionKey connPub nonceC nonceS : Bytes}
    (hagreed : ClientAgreed crypto corrupt world index sessionKey connPub nonceC nonceS) :
    ∃ session, world[index]? = some session ∧ SentHello crypto session (connPub, nonceC) := by
  obtain ⟨session, client, result, hindex, hrole, hkey, hstate⟩ := hagreed
  have hdone := (walletLocal crypto corrupt session).state
  rw [hstate] at hdone
  refine ⟨session, hindex, ?_, hdone.2.drawn⟩
  rw [hrole, WalletRole.connPub, hkey]

/-- In a run that relays no hello, identities are recorded only for the transport of the client that
proved them. -/
theorem identity_recorded_for_own_transport {state : WalletCarrier Private Signature}
    (hreach : ((WalletCarrier.machine crypto corrupt remoteID).restrict
      (Unrelayed crypto remoteID)).Reachable state) :
    RecordsBound crypto corrupt remoteID state where
  tables := WalletCarrier.tablesRecorded hreach.of_restrict
  proved := by
    intro index _ sessionKey connPub nonceC nonceS hkey haccepted
    have hworld := WalletCarrier.world_reachable hreach.of_restrict
    obtain ⟨client, hagreed⟩ := haccepted.matched hworld hkey
    obtain ⟨serverSession, hserver, hheard⟩ := haccepted.heardHello
    obtain ⟨clientSession, hclient, hsent⟩ := hagreed.sentHello
    exact ⟨client, hagreed, WalletCarrier.hellosDirect hreach index client serverSession
      clientSession _ hserver hclient hheard hsent⟩

/-- A run of the network is a run of the carrier that records nothing. -/
theorem WalletCarrier.legal_handshakes {state : WalletCarrier Private Signature}
    {actions : List (NetworkAction (WalletRole Private Signature) (WalletSegment Signature))}
    (hlegal : (walletNetwork crypto corrupt).machine.Legal state.world actions) :
    (machine crypto corrupt remoteID).Legal state (actions.map .handshake) := by
  induction actions generalizing state with
  | nil => trivial
  | cons action rest ih => exact ⟨hlegal.1, ih hlegal.2⟩

theorem WalletCarrier.run_handshakes (state : WalletCarrier Private Signature)
    (actions : List (NetworkAction (WalletRole Private Signature) (WalletSegment Signature))) :
    (machine crypto corrupt remoteID).run state (actions.map .handshake) =
      { state with world := (walletNetwork crypto corrupt).machine.run state.world actions } := by
  induction actions generalizing state with
  | nil => rfl
  | cons action rest ih => exact ih _

theorem WalletCarrier.run_handshakes_record (state : WalletCarrier Private Signature)
    (actions : List (NetworkAction (WalletRole Private Signature) (WalletSegment Signature)))
    (index : ℕ) :
    (machine crypto corrupt remoteID).run state (actions.map .handshake ++ [.record index]) =
      WalletCarrier.record crypto corrupt remoteID
        { state with world := (walletNetwork crypto corrupt).machine.run state.world actions }
        index := by
  rw [Machine.run_append, run_handshakes]
  rfl

end Carrier

section Example

/-- The client attaches from its own transport, and the session host hears from `host`. -/
def attachRemoteID (host : String) (index : ℕ) : String := if index = 1 then "alice" else host

def attachMachine (host : String) :
    Machine (WalletCarrier FreePrivate FreeSignature) (WalletCarrierAction FreePrivate FreeSignature) :=
  WalletCarrier.machine freeEd25519 (· = (freeKey 5).1) (attachRemoteID host)

/-- The run of `attachRun`, after which `Serve` records the identity of session 2. -/
def attachCarrierRun : List (WalletCarrierAction FreePrivate FreeSignature) :=
  attachRun.map .handshake ++ [.record 2]

def attachState (host : String) : WalletCarrier FreePrivate FreeSignature :=
  (attachMachine host).run (attachMachine host).init attachCarrierRun

theorem attachWorld_returned : returnedAt freeEd25519 (· = (freeKey 5).1) attachWorld 2 =
    some ((freeKey 2).1, exampleIdentity) := by
  decide +kernel

theorem attachState_eq (host : String) : attachState host =
    ⟨attachWorld, fun key ↦ if key = (freeKey 2).1 then
      Wrapped.wrap.store (attachRemoteID host 2) exampleIdentity else .wrap, [2]⟩ := by
  have hstate : attachState host = WalletCarrier.record freeEd25519 (· = (freeKey 5).1)
      (attachRemoteID host) ⟨attachWorld, fun _ ↦ .wrap, []⟩ 2 :=
    WalletCarrier.run_handshakes_record _ attachRun 2
  rw [hstate]
  exact WalletCarrier.record_of_returnedAt attachWorld_returned

theorem attachState_gate (host : String) :
    ((attachState host).tables (freeKey 2).1).gate (attachRemoteID host 2) = some exampleIdentity := by
  rw [attachState_eq]
  dsimp only
  rw [if_pos rfl, Wrapped.gate_store_self]

theorem attachCarrierRun_legal (host : String) :
    (attachMachine host).Legal (attachMachine host).init attachCarrierRun := by
  apply (Machine.legal_append _ _ _ _).mpr
  refine ⟨WalletCarrier.legal_handshakes attachRun_legal, ?_, trivial⟩
  rw [attachMachine, WalletCarrier.run_handshakes]
  refine ⟨List.not_mem_nil, ?_⟩
  change (returnedAt freeEd25519 (· = (freeKey 5).1) attachWorld 2).isSome = true
  rw [attachWorld_returned]
  rfl

theorem attachWorld_agreed {client : ℕ} {sessionKey connPub nonceC nonceS : Bytes}
    (hagreed : ClientAgreed freeEd25519 (· = (freeKey 5).1) attachWorld client sessionKey connPub
      nonceC nonceS) : client = 1 := by
  have hclients : ∀ index ∈ List.range attachWorld.length, ∀ session ∈ attachWorld[index]?,
      session.role.connPub freeEd25519 ≠ none → index = 1 := by
    decide +kernel
  obtain ⟨session, opts, result, hindex, hrole, _⟩ := hagreed
  have hrange := List.mem_range.mpr (List.getElem?_eq_some_iff.mp hindex).1
  apply hclients client hrange session hindex
  rw [hrole, WalletRole.connPub]
  simp

/-- A client that dials the host of `mallory` and expects session 2 succeeds with it, while `mallory`
passes the messages on; the session host then takes `mallory` for the owner of the session. -/
theorem relayed_identity_recorded : ∃ state,
    (WalletCarrier.machine freeEd25519 (· = (freeKey 5).1) (attachRemoteID "mallory")).Reachable
        state ∧
      (freeKey 2).1 ≠ (freeKey 5).1 ∧ (freeKey 3).1 ≠ (freeKey 5).1 ∧
      ClientSucceeded freeEd25519 (· = (freeKey 5).1) state.world 1 (freeKey 2).1 (freeNonce 7).1
        (freeNonce 8).1 ∧
      2 ∈ state.recorded ∧
      ServerAccepted freeEd25519 (· = (freeKey 5).1) state.world 2 (freeKey 2).1 (freeKey 3).1
        (freeNonce 7).1 (freeNonce 8).1 ∧
      attachRemoteID "mallory" 2 = "mallory" ∧
      (state.tables (freeKey 2).1).gate "mallory" =
        some ⟨address (freeKey 1).1, true, true, true⟩ ∧
      ∀ client sessionKey connPub nonceC nonceS,
        ClientAgreed freeEd25519 (· = (freeKey 5).1) state.world client sessionKey connPub nonceC
          nonceS → attachRemoteID "mallory" client = "alice" := by
  refine ⟨attachState "mallory", Machine.Reachable.init.run (attachCarrierRun_legal "mallory"),
    by decide, by decide, ?_⟩
  have hgate := attachState_gate "mallory"
  rw [attachState_eq] at hgate ⊢
  refine ⟨⟨_, _, _, _, rfl, rfl, rfl⟩, List.mem_singleton_self 2,
    ⟨_, exampleSession, _, _, rfl, rfl, rfl⟩, rfl, hgate, ?_⟩
  intro client sessionKey connPub nonceC nonceS hagreed
  rw [attachWorld_agreed hagreed]
  rfl

/-- Without a relay the owner's identity is recorded for the transport of its own client. -/
theorem identity_recorded_for_own_transport_direct :
    ((attachState "alice").tables (freeKey 2).1).gate "alice" = some exampleIdentity ∧
      RecordsBound freeEd25519 (· = (freeKey 5).1) (attachRemoteID "alice") (attachState "alice") := by
  refine ⟨attachState_gate "alice", identity_recorded_for_own_transport ?_⟩
  apply Machine.Reachable.init.run
  exact Machine.legal_restrict _ (attachCarrierRun_legal "alice") (by decide +kernel)

end Example

end Mosey.Auth
