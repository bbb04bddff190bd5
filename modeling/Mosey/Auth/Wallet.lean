import Mosey.Library.Network
import Mosey.Wallet.Fold
import Mosey.Auth.Handshake

/-!
# The wallet handshake

The server proves control of the session key and the client of an ephemeral connection key, each by
signing both nonces and the session under a label of its direction. Only after the client's proof
does the server resolve the delegation chain to caps. `resolveCaps` reads the cached snapshot, fails
closed on a stale one, and on an unknown root consults the source once. The source, the clock and
the rate limiter are the environment; the limiter's token bucket appears only through its answers.

A wallet that signs a delegation is a role of its own: its signatures are over delegation texts.
-/

namespace Mosey.Auth

open Library Wallet

def walletServerLabel : String := "mosey-wallet-v1:server"

def walletClientLabel : String := "mosey-wallet-v1:client"

def errPrefixWallet : String := "mosey/auth(wallet): "

def walletNonceSize : ℕ := 32

/-- What the source, the clock and the limiter answer while a chain is resolved. -/
structure ResolveEnv where
  snapshot : Except String (Snapshot × Bool)
  foldAt : Time
  allow : Bool
  verifyNow : PublicKey → Except String (Caps × Bool)
  refoldAt : Time

inductive WalletHandshakeMessage (Signature : Type)
  | hello (clientPubkey nonceC : Bytes) (delegationChain : List (Delegation Signature))
  | challenge (sessionKey nonceS : Bytes) (serverSig : Signature)
  | proof (clientSig : Signature)
  | unset
  /-- A signed delegation on its way to whoever will present it; not part of the handshake. -/
  | delegation (signed : Delegation Signature)

abbrev WalletSegment (Signature : Type) := Segment (WalletHandshakeMessage Signature) ResolveEnv

namespace WalletHandshakeMessage

variable {Signature : Type}

/-- The `%T` of the message's oneof payload. -/
def kind : WalletHandshakeMessage Signature → String
  | hello _ _ _ => "*api.WalletHandshakeMessage_Hello"
  | challenge _ _ _ => "*api.WalletHandshakeMessage_Challenge"
  | proof _ => "*api.WalletHandshakeMessage_Proof"
  | _ => "<nil>"

def tags : WalletHandshakeMessage Signature → List Signature
  | hello _ _ chain => chain.map Delegation.signature
  | challenge _ _ signature => [signature]
  | proof signature => [signature]
  | unset => []
  | delegation signed => [signed.signature]

def nonces : WalletHandshakeMessage Signature → List Bytes
  | hello _ nonce _ => [nonce]
  | challenge _ nonce _ => [nonce]
  | _ => []

end WalletHandshakeMessage

/-- The listener side; `limited` says whether it has a rate limiter. -/
structure WalletServer (Private : Type) where
  sessionPriv : Private
  limited : Bool

structure WalletClient (Private Signature : Type) where
  connPriv : Private
  chain : List (Delegation Signature)
  expectSession : Option PublicKey

inductive WalletRole (Private Signature : Type)
  | server (server : WalletServer Private)
  | client (opts : WalletClient Private Signature)
  | delegator (priv : Private) (fields : Fields)

inductive WalletRun (Private Signature : Type)
  | serverStart (server : WalletServer Private)
  | serverAwait (server : WalletServer Private) (connPub nonceC nonceS : Bytes)
      (chain : List (Delegation Signature))
  | serverVerified (server : WalletServer Private) (connPub nonceC nonceS : Bytes)
      (chain : List (Delegation Signature)) (result : Except AuthError Identity)
  | clientStart (client : WalletClient Private Signature)
  | clientAwait (client : WalletClient Private Signature) (nonceC : Bytes)
  | clientDone (client : WalletClient Private Signature) (nonceC nonceS sessionKey : Bytes)
      (result : Except AuthError Identity)
  | delegatorStart (priv : Private) (fields : Fields)
  | delegatorDone
  | failed (error : AuthError)

def walletTranscript (label : String) (nonceA nonceB sessionID : Bytes) : Bytes :=
  ascii label ++ nonceA ++ nonceB ++ sessionID

section Handshake

variable {Private Signature : Type} (crypto : Ed25519 Private Signature)

def newWalletClientAuth (opts : WalletClient Private Signature) :
    Except AuthError (WalletClient Private Signature) :=
  if opts.chain.length = 0 then .error (.plain (errPrefixWallet ++ "Chain required")) else .ok opts

def chainRoot (chain : List (Delegation Signature)) : Except WalletError PublicKey :=
  match chain with
  | [] => .error .emptyChain
  | first :: _ =>
    match first.fields with
    | .error err => .error err
    | .ok fields => .ok fields.delegator

def leafCaps (chain : List (Delegation Signature)) : Caps × Bool :=
  match chain.getLast? with
  | none => (0, false)
  | some leaf =>
    match leaf.fields with
    | .error _ => (0, false)
    | .ok fields => (fields.caps, true)

/-- A snapshot with one freshly verified grant laid over it. -/
def overlaySnapshot (snap : Snapshot) (root : PublicKey) (caps : Caps) : Snapshot where
  owner := snap.owner
  grantCaps wallet := if root = wallet then some caps else snap.grantCaps wallet

abbrev Resolved := Except AuthError (Caps × Bool × PublicKey)

def rejectChain (err : WalletError) : Resolved :=
  .error ⟨true, errPrefixWallet ++ errUnauthorized ++ ": " ++ err.text⟩

/-- The consultation of the source on an unknown root. -/
def resolveOnMiss (sessionID : PublicKey) (env : ResolveEnv) (snap : Snapshot) (root : PublicKey)
    (chain : List (Delegation Signature)) (connPub : PublicKey) : Resolved :=
  match env.verifyNow root with
  | .ok (caps, true) =>
    match fold crypto chain connPub sessionID (overlaySnapshot snap root caps) env.refoldAt with
    | (caps, isOwner, none) => .ok (caps, isOwner, root)
    | (_, _, some ferr) => rejectChain ferr
  | _ => rejectChain .unknownRoot

/-- `resolveCaps`, with the wallets it asked `VerifyNow` about. -/
def resolveCaps (limited : Bool) (sessionID : PublicKey) (env : ResolveEnv)
    (chain : List (Delegation Signature)) (connPub : PublicKey) : Resolved × List PublicKey :=
  match chainRoot chain with
  | .error err => (rejectChain err, [])
  | .ok root =>
    match env.snapshot with
    | .error err => (.error (.plain (errPrefixWallet ++ "no snapshot available: " ++ err)), [])
    | .ok (_, false) =>
      (.error (.plain (errPrefixWallet ++ "snapshot stale beyond budget; failing closed")), [])
    | .ok (snap, true) =>
      match fold crypto chain connPub sessionID snap env.foldAt with
      | (caps, isOwner, none) => (.ok (caps, isOwner, root), [])
      | (_, _, some ferr) =>
        if ferr = .unknownRoot ∧ (limited = false ∨ env.allow = true) then
          (resolveOnMiss crypto sessionID env snap root chain connPub, [root])
        else (rejectChain ferr, [])

def walletIdentity (caps : Caps) (rootIsOwner : Bool) (root : PublicKey) : Identity :=
  ⟨address root, rootIsOwner && caps = allCaps, caps.has capWrite, caps.has capResize⟩

/-- `ServerHandshake` after the client's proof, with the wallets it asked `VerifyNow` about. -/
def resolveIdentity (limited : Bool) (sessionID : PublicKey) (env : ResolveEnv)
    (chain : List (Delegation Signature)) (connPub : PublicKey) :
    Except AuthError Identity × List PublicKey :=
  match resolveCaps crypto limited sessionID env chain connPub with
  | (.error err, calls) => (.error err, calls)
  | (.ok (caps, rootIsOwner, root), calls) => (.ok (walletIdentity caps rootIsOwner root), calls)

namespace WalletRun

abbrev Outcome (Private Signature : Type) :=
  WalletRun Private Signature × Effects (WalletHandshakeMessage Signature) PublicKey Bytes

def fail (error : AuthError) : Outcome Private Signature := (failed error, .none)

/-- `ServerHandshake` from its first read to its second. -/
def sendChallenge (server : WalletServer Private) (io : WalletSegment Signature) :
    Outcome Private Signature :=
  match io.read with
  | .error err => fail (.plain (errPrefixWallet ++ "read hello: " ++ err))
  | .ok (.hello connPub nonceC chain) =>
    if connPub.length ≠ publicKeySize then
      fail (.rejected errPrefixWallet (": client_pubkey length " ++ toString connPub.length))
    else if nonceC.length ≠ walletNonceSize then
      fail (.rejected errPrefixWallet (": nonce_c length " ++ toString nonceC.length))
    else
      match io.rand with
      | .error err => fail (.plain (errPrefixWallet ++ "nonce: " ++ err))
      | .ok nonceS =>
        let sessionID := crypto.publicKey server.sessionPriv
        let transcript := walletTranscript walletServerLabel nonceC nonceS.1 sessionID
        let effects := ⟨[WalletHandshakeMessage.challenge sessionID nonceS.1
          (crypto.sign server.sessionPriv transcript)], [(sessionID, transcript)]⟩
        match io.write with
        | .error err => (failed (.plain (errPrefixWallet ++ "send challenge: " ++ err)), effects)
        | .ok _ => (serverAwait server connPub nonceC nonceS.1 chain, effects)
  | .ok other =>
    fail (.rejected errPrefixWallet (": expected WalletHello, got " ++ other.kind))

/-- `ServerHandshake` from its second read to its return. -/
def finishServer (server : WalletServer Private) (connPub nonceC nonceS : Bytes)
    (chain : List (Delegation Signature)) (io : WalletSegment Signature) :
    Outcome Private Signature :=
  match io.read with
  | .error err => fail (.plain (errPrefixWallet ++ "read proof: " ++ err))
  | .ok (.proof clientSig) =>
    let sessionID := crypto.publicKey server.sessionPriv
    if crypto.verify connPub (walletTranscript walletClientLabel nonceS nonceC sessionID) clientSig =
        false then
      fail (.rejected errPrefixWallet ": client proof signature invalid")
    else
      (serverVerified server connPub nonceC nonceS chain
        (resolveIdentity crypto server.limited sessionID io.env chain connPub).1, .none)
  | .ok other =>
    fail (.rejected errPrefixWallet (": expected WalletProof, got " ++ other.kind))

/-- `ClientHandshake` up to its read. -/
def sendHello (client : WalletClient Private Signature) (io : WalletSegment Signature) :
    Outcome Private Signature :=
  match io.rand with
  | .error err => fail (.plain (errPrefixWallet ++ "nonce: " ++ err))
  | .ok nonceC =>
    let effects := ⟨[WalletHandshakeMessage.hello (crypto.publicKey client.connPriv) nonceC.1
      client.chain], []⟩
    match io.write with
    | .error err => (failed (.plain (errPrefixWallet ++ "send hello: " ++ err)), effects)
    | .ok _ => (clientAwait client nonceC.1, effects)

/-- The check against the session the dialer intends to reach. -/
def expectationMet (client : WalletClient Private Signature) (sessionKey : PublicKey) : Bool :=
  match client.expectSession with
  | none => true
  | some expected => expected = sessionKey

def clientIdentity (client : WalletClient Private Signature) (sessionKey : PublicKey) : Identity :=
  let caps := (leafCaps client.chain).1
  ⟨"wallet:" ++ address sessionKey, false, caps.has capWrite, caps.has capResize⟩

/-- `ClientHandshake` from its read to its return. -/
def finishClient (client : WalletClient Private Signature) (nonceC : Bytes)
    (io : WalletSegment Signature) : Outcome Private Signature :=
  match io.read with
  | .error err => fail (.plain (errPrefixWallet ++ "read challenge: " ++ err))
  | .ok (.challenge sessionKey nonceS serverSig) =>
    if sessionKey.length ≠ publicKeySize then
      fail (.rejected errPrefixWallet (": session_key length " ++ toString sessionKey.length))
    else if nonceS.length ≠ walletNonceSize then
      fail (.rejected errPrefixWallet (": nonce_s length " ++ toString nonceS.length))
    else if crypto.verify sessionKey (walletTranscript walletServerLabel nonceC nonceS sessionKey)
        serverSig = false then
      fail (.rejected errPrefixWallet ": server proof signature invalid")
    else if expectationMet client sessionKey = false then
      fail (.rejected errPrefixWallet (": server presented session " ++ address sessionKey ++
        ", expected " ++ address (client.expectSession.getD [])))
    else
      let transcript := walletTranscript walletClientLabel nonceS nonceC sessionKey
      let effects := ⟨[WalletHandshakeMessage.proof (crypto.sign client.connPriv transcript)],
        [(crypto.publicKey client.connPriv, transcript)]⟩
      match io.write with
      | .error err => (clientDone client nonceC nonceS sessionKey
          (.error (.plain (errPrefixWallet ++ "send proof: " ++ err))), effects)
      | .ok _ => (clientDone client nonceC nonceS sessionKey
          (.ok (clientIdentity client sessionKey)), effects)
  | .ok other =>
    fail (.rejected errPrefixWallet (": expected WalletChallenge, got " ++ other.kind))

/-- A wallet signs one delegation. -/
def signDelegation (priv : Private) (fields : Fields) : Outcome Private Signature :=
  (delegatorDone, ⟨[.delegation (.sign crypto priv fields)],
    [(crypto.publicKey priv, fields.render)]⟩)

def initial : WalletRole Private Signature → WalletRun Private Signature
  | .server server => serverStart server
  | .client opts =>
    match newWalletClientAuth opts with
    | .ok client => clientStart client
    | .error err => failed err
  | .delegator priv fields => delegatorStart priv fields

def receive : WalletRun Private Signature → WalletSegment Signature → Outcome Private Signature
  | serverStart server, io => sendChallenge crypto server io
  | serverAwait server connPub nonceC nonceS chain, io =>
    finishServer crypto server connPub nonceC nonceS chain io
  | clientStart client, io => sendHello crypto client io
  | clientAwait client nonceC, io => finishClient crypto client nonceC io
  | delegatorStart priv fields, _ => signDelegation crypto priv fields
  | run, _ => (run, .none)

/-- The server answers a hello with a challenge over both nonces, or fails. -/
theorem sendChallenge_cases (server : WalletServer Private) (io : WalletSegment Signature) :
    (∃ error, sendChallenge crypto server io = fail error) ∨
      ∃ connPub nonceC chain nonceS next effects, io.read = .ok (.hello connPub nonceC chain) ∧
        connPub.length = publicKeySize ∧ nonceC.length = walletNonceSize ∧ io.rand = .ok nonceS ∧
        ((∃ error, next = failed error) ∨ next = serverAwait server connPub nonceC nonceS.1 chain) ∧
        effects.written = [.challenge (crypto.publicKey server.sessionPriv) nonceS.1
          (crypto.sign server.sessionPriv (walletTranscript walletServerLabel nonceC nonceS.1
            (crypto.publicKey server.sessionPriv)))] ∧
        effects.signed = [(crypto.publicKey server.sessionPriv, walletTranscript walletServerLabel
          nonceC nonceS.1 (crypto.publicKey server.sessionPriv))] ∧
        sendChallenge crypto server io = (next, effects) := by
  unfold sendChallenge
  split
  · exact .inl ⟨_, rfl⟩
  · next connPub nonceC chain hread =>
    split_ifs with hkey hnonce
    · exact .inl ⟨_, rfl⟩
    · exact .inl ⟨_, rfl⟩
    have hlengths := And.intro (not_not.mp hkey) (not_not.mp hnonce)
    split
    · exact .inl ⟨_, rfl⟩
    · next nonceS hrand =>
      refine .inr ⟨connPub, nonceC, chain, nonceS, ?_⟩
      cases io.write with
      | error err =>
        exact ⟨_, _, hread, hlengths.1, hlengths.2, hrand, .inl ⟨_, rfl⟩, rfl, rfl, rfl⟩
      | ok _ => exact ⟨_, _, hread, hlengths.1, hlengths.2, hrand, .inr rfl, rfl, rfl, rfl⟩
  · exact .inl ⟨_, rfl⟩

/-- The server goes on only with a proof that verifies under the key of the hello. -/
theorem finishServer_cases (server : WalletServer Private) (connPub nonceC nonceS : Bytes)
    (chain : List (Delegation Signature)) (io : WalletSegment Signature) :
    (∃ error, finishServer crypto server connPub nonceC nonceS chain io = fail error) ∨
      ∃ clientSig, io.read = .ok (.proof clientSig) ∧
        crypto.verify connPub (walletTranscript walletClientLabel nonceS nonceC
          (crypto.publicKey server.sessionPriv)) clientSig = true ∧
        finishServer crypto server connPub nonceC nonceS chain io =
          (serverVerified server connPub nonceC nonceS chain (resolveIdentity crypto server.limited
            (crypto.publicKey server.sessionPriv) io.env chain connPub).1, .none) := by
  unfold finishServer
  split
  · exact .inl ⟨_, rfl⟩
  · next clientSig hread =>
    dsimp only
    split_ifs with hproof
    · exact .inl ⟨_, rfl⟩
    · exact .inr ⟨clientSig, hread, Bool.eq_true_of_not_eq_false hproof, rfl⟩
  · exact .inl ⟨_, rfl⟩

theorem sendHello_cases (client : WalletClient Private Signature) (io : WalletSegment Signature) :
    ∃ written, (∀ message ∈ written, message.tags = client.chain.map Delegation.signature) ∧
      ((∃ error, sendHello crypto client io = (failed error, ⟨written, []⟩)) ∨
        ∃ nonceC, io.rand = .ok nonceC ∧
          sendHello crypto client io = (clientAwait client nonceC.1, ⟨written, []⟩)) := by
  unfold sendHello
  split
  · exact ⟨[], by simp, .inl ⟨_, rfl⟩⟩
  · next nonceC hrand =>
    refine ⟨[.hello (crypto.publicKey client.connPriv) nonceC.1 client.chain], ?_, ?_⟩
    · intro message hmessage
      rw [List.mem_singleton.mp hmessage]
      rfl
    · cases io.write with
      | error err => exact .inl ⟨_, rfl⟩
      | ok _ => exact .inr ⟨nonceC, hrand, rfl⟩

theorem finishClient_cases (client : WalletClient Private Signature) (nonceC : Bytes)
    (io : WalletSegment Signature) :
    (∃ error, finishClient crypto client nonceC io = fail error) ∨
      ∃ sessionKey nonceS serverSig result,
        io.read = .ok (.challenge sessionKey nonceS serverSig) ∧
        sessionKey.length = publicKeySize ∧ nonceS.length = walletNonceSize ∧
        crypto.verify sessionKey (walletTranscript walletServerLabel nonceC nonceS sessionKey)
          serverSig = true ∧
        expectationMet client sessionKey = true ∧
        finishClient crypto client nonceC io = (clientDone client nonceC nonceS sessionKey result,
          ⟨[.proof (crypto.sign client.connPriv
              (walletTranscript walletClientLabel nonceS nonceC sessionKey))],
            [(crypto.publicKey client.connPriv,
              walletTranscript walletClientLabel nonceS nonceC sessionKey)]⟩) := by
  unfold finishClient
  split
  · exact .inl ⟨_, rfl⟩
  · next sessionKey nonceS serverSig hread =>
    split_ifs with hkey hnonce hproof hexpected
    · exact .inl ⟨_, rfl⟩
    · exact .inl ⟨_, rfl⟩
    · exact .inl ⟨_, rfl⟩
    · exact .inl ⟨_, rfl⟩
    have hvalid := Bool.eq_true_of_not_eq_false hproof
    have hmet := Bool.eq_true_of_not_eq_false hexpected
    refine .inr ⟨sessionKey, nonceS, serverSig, ?_⟩
    cases io.write with
    | error err => exact ⟨_, hread, not_not.mp hkey, not_not.mp hnonce, hvalid, hmet, rfl⟩
    | ok _ => exact ⟨_, hread, not_not.mp hkey, not_not.mp hnonce, hvalid, hmet, rfl⟩
  · exact .inl ⟨_, rfl⟩

end WalletRun

end Handshake

end Mosey.Auth
