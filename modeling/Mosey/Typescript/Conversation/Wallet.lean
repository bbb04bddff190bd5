import Mosey.Auth.WalletPolicy
import Mosey.Typescript.Calls
import Mosey.Typescript.PlainProto

/-!
# A client and a server of the wallet handshake

The server proves itself first, and the client turns away from a session that it did not ask for. What the
server's policy makes of the delegation chain is heard by the client in either case: as the acknowledgement,
or as the end of the stream.
-/

namespace Mosey.Typescript

open Library Auth

/-- Client and server sign the same transcript. -/
theorem transcript_eq (label : String) (a b sessionID : Bytes) :
    transcript label a b sessionID = walletTranscript label a b sessionID := by
  simp [transcript, walletTranscript]

/-- A client with a key pair, and its server. The hello is within the limit. -/
structure WalletParties where
  crypto : WireEd25519 Seed
  engine : Engine
  hasRoom : HasRoom engine
  codec : WalletCodec
  server : WalletServer Seed
  env : ResolveEnv
  nonceS : Nonce
  opts : WalletHandshakeOptions
  seed : Seed
  connKey_eq : opts.connKey = privateKey crypto seed
  nonceC : Nonce
  length_hello_le : (wire [(1, walletHelloWire
    ⟨crypto.publicKey seed, nonceC.1, opts.delegationChain⟩)]).length ≤ maxMessageSize

namespace WalletParties

variable (parties : WalletParties)

def listener : Listener (WalletRun Seed Bytes) (Auth.WalletHandshakeMessage Bytes) :=
  walletListener parties.crypto.toEd25519 (.ok parties.nonceS) parties.env

def peer : Peer := .ofListener parties.listener parties.codec (.serverStart parties.server)

def program : Async Identity :=
  runWalletHandshake parties.crypto.toEd25519 parties.engine parties.opts parties.nonceC

def sessionKey : PublicKey := parties.crypto.publicKey parties.server.sessionPriv

def connPub : PublicKey := parties.crypto.publicKey parties.seed

def hello : Bytes :=
  wire [(1, walletHelloWire ⟨parties.connPub, parties.nonceC.1, parties.opts.delegationChain⟩)]

def challenge : Auth.WalletHandshakeMessage Bytes :=
  challengeFor parties.crypto.toEd25519 parties.server parties.nonceC parties.nonceS

def clientSig : Bytes :=
  parties.crypto.sign parties.seed
    (walletTranscript walletClientLabel parties.nonceS.1 parties.nonceC.1 parties.sessionKey)

def proof : Bytes := wire [(3, wire [(1, parties.clientSig)])]

/-- The error of a client that is not where it wanted to be. -/
def sessionMismatch : ClientError :=
  .error ("mosey/auth(wallet): server presented session " ++
    String.ofList (base58Encode parties.sessionKey) ++ ", expected " ++
    String.ofList (base58Encode (parties.opts.expectSession.getD [])))

/-- What the server makes of the chain. -/
def resolved : Except Auth.AuthError Identity :=
  (resolveIdentity parties.crypto.toEd25519 parties.server.limited parties.sessionKey parties.env
    (serverChain parties.opts.delegationChain) parties.connPub).1

/-- How both sides end. -/
def Ends (status : ServeStatus) (rest : Rest Identity) : Prop :=
  if parties.opts.expectSession.all (· = parties.sessionKey) then
    match parties.resolved with
    | .ok identity =>
      status = .accepted identity ∧
        rest = .settled (.ok (leafIdentity parties.sessionKey parties.opts.delegationChain))
    | .error err => status = .refused err ∧ ∃ reason, rest = .settled (.error (.stream reason))
  else
    status = .waiting ∧ rest = .settled (.error parties.sessionMismatch)

/-- They end so with the server at what it has been sent. -/
def EndsAt (sent : Bytes) : Rest Identity → Prop := parties.Ends (parties.peer.answer sent).status

theorem encodes_challenge : Auth.WalletHandshakeMessage.Encodes parties.challenge
    (parties.codec.marshal parties.challenge) :=
  parties.codec.encodes_marshal (.challenge (.inl rfl) (.inl rfl) (.inl rfl))

theorem length_challenge_le : (parties.codec.marshal parties.challenge).length ≤ maxMessageSize :=
  parties.encodes_challenge.length_challenge_le (parties.crypto.length_publicKey _) parties.nonceS.2
    (parties.crypto.length_sign _ _)

theorem encodes_proof : Auth.WalletHandshakeMessage.Encodes (.proof parties.clientSig) parties.proof :=
  encodes_walletProof _

theorem length_proof_le : parties.proof.length ≤ maxMessageSize :=
  parties.encodes_proof.length_proof_le (parties.crypto.length_sign _ _)

/-- The client opens with its hello and goes on with the challenge. -/
theorem program_eq :
    ∃ next, parties.program = .sendFramed parties.hello (.readFramed next) ∧
      next (parties.codec.marshal parties.challenge) =
        .later (if parties.opts.expectSession.all (· = parties.sessionKey) then
          .later (.sendFramed parties.proof (.readAck walletAck
            (leafIdentity parties.sessionKey parties.opts.delegationChain)))
        else .throws parties.sessionMismatch) := by
  have hfits := maxMessageSize_le parties.hasRoom
  have hwrites : encodeWalletHelloMessage parties.engine
      ⟨parties.connPub, parties.nonceC.1, parties.opts.delegationChain⟩ = .ok parties.hello :=
    (writes_walletHelloMessage parties.engine _).eq_ok (parties.length_hello_le.trans hfits)
  have hsession : parties.sessionKey.length = ED25519_PUBLIC_KEY_SIZE :=
    parties.crypto.length_publicKey _
  have hnonce : parties.nonceS.1.length = WALLET_NONCE_SIZE := parties.nonceS.2
  have hproof : encodeWalletProofMessage parties.engine ⟨parties.clientSig⟩ = .ok parties.proof :=
    (writes_walletProofMessage parties.engine _).eq_ok (parties.length_proof_le.trans hfits)
  have hexpected : parties.opts.expectSession.any (fun expected ↦
      constantTimeEqual (.bytes parties.sessionKey) expected = false) =
        !parties.opts.expectSession.all (· = parties.sessionKey) := by
    cases parties.opts.expectSession with
    | none => rfl
    | some expected => simp [constantTimeEqual_bytes, eq_comm]
  rw [program, runWalletHandshake, parties.connKey_eq, if_neg (not_not.mpr (length_privateKey _)),
    connPub_privateKey, ← connPub]
  dsimp only
  rw [hwrites]
  refine ⟨_, rfl, ?_⟩
  rw [decodeWalletHandshakeMessage_encoded_challenge parties.encodes_challenge
    (parties.length_challenge_le.trans hfits)]
  dsimp only [Except.mapError, Async.attempt]
  rw [← sessionKey, ofLength_eq_ok hsession, ofLength_eq_ok hnonce]
  dsimp only
  have hserverLabel : SERVER_LABEL = walletServerLabel := rfl
  have hclientLabel : CLIENT_LABEL = walletClientLabel := rfl
  rw [transcript_eq, transcript_eq, hserverLabel, hclientLabel,
    ed25519Verify_sign (rfl : parties.sessionKey = _), if_neg (by decide), hexpected, ed25519Sign_privateKey,
    ← clientSig, hproof]
  cases parties.opts.expectSession.all (· = parties.sessionKey) with
  | true | false => rfl

theorem outcome_start : parties.listener.outcome (.serverStart parties.server) = none := rfl

theorem answer_nil : parties.peer.answer [] = .waiting := Listener.serve_nil parties.codec parties.outcome_start

/-- The server answers the hello with its challenge, and serves what follows. -/
theorem answer_hello_append (more : Bytes) :
    parties.peer.answer (framed parties.hello ++ more) =
      (parties.listener.serve parties.codec (.serverAwait parties.server parties.connPub parties.nonceC.1
        parties.nonceS.1 (serverChain parties.opts.delegationChain)) more).behind
          (framed (parties.codec.marshal parties.challenge)) := by
  have hencodes : Auth.WalletHandshakeMessage.Encodes
      (.hello parties.connPub parties.nonceC.1 (serverChain parties.opts.delegationChain)) parties.hello :=
    encodes_walletHello ⟨parties.connPub, parties.nonceC.1, parties.opts.delegationChain⟩
  refine (Listener.serve_framed parties.outcome_start hencodes parties.length_hello_le more).trans ?_
  rw [listener, connPub, receive_walletHello (parties.crypto.length_publicKey _), List.flatMap_singleton,
    parties.codec.marshalTo_eq]
  rfl

theorem answer_hello :
    parties.peer.answer (framed parties.hello) =
      ⟨framed (parties.codec.marshal parties.challenge), .waiting⟩ := by
  rw [← List.append_nil (framed _), answer_hello_append, Listener.serve_nil parties.codec rfl,
    Answer.behind, Answer.waiting, List.append_nil]

/-- The server acknowledges the proof if the chain resolves, and is done. -/
theorem answer_proof :
    parties.peer.answer (framed parties.hello ++ framed parties.proof) =
      (Answer.final parties.resolved).behind (framed (parties.codec.marshal parties.challenge)) := by
  rw [answer_hello_append, ← List.append_nil (framed parties.proof),
    Listener.serve_framed rfl parties.encodes_proof parties.length_proof_le, listener, connPub, clientSig,
    sessionKey, receive_walletProof (parties.crypto.verify_sign _ _),
    Listener.serve_of_outcome parties.codec rfl]
  rfl

/-- The client's function meets the server's answers, whichever way the conversation ends. -/
theorem program_meets : parties.program.meets parties.engine parties.peer parties.EndsAt [] 0 := by
  obtain ⟨next, hprogram, hnext⟩ := parties.program_eq
  have hlast := parties.answer_proof
  have hhello : parties.hello.length ≤ maxMessageSize := parties.length_hello_le
  have hlimit := length_framed_lt parties.hasRoom parties.length_challenge_le
  have hwaiting : parties.peer.done (framed parties.hello) = false := by
    rw [Peer.done, answer_hello]
    rfl
  have hstart : parties.peer.done [] = false := by
    rw [Peer.done, answer_nil]
    rfl
  rw [hprogram]
  refine meets_hello parties.hasRoom hhello hstart parties.length_challenge_le
    (congrArg Answer.written parties.answer_hello) ?_
  rw [hnext, Async.meets]
  cases hexpected : parties.opts.expectSession.all (· = parties.sessionKey) with
  | false =>
    rw [if_neg Bool.false_ne_true, Async.meets, EndsAt, Ends, hexpected, answer_hello]
    exact ⟨rfl, rfl⟩
  | true =>
    rw [if_pos rfl, Async.meets]
    cases hresolved : parties.resolved with
    | ok identity =>
      rw [hresolved] at hlast
      apply meets_proof parties.hasRoom parties.length_proof_le hlimit hwaiting
      · rw [hlast]
        rfl
      · rw [EndsAt, Ends, hexpected, hlast, if_pos rfl, hresolved]
        exact ⟨rfl, rfl⟩
    | error err =>
      rw [hresolved] at hlast
      apply meets_proof_refused parties.hasRoom parties.length_proof_le hlimit hwaiting
      · rw [hlast]
        exact List.append_nil _
      · rw [Peer.done, hlast]
        rfl
      · intro reason
        rw [EndsAt, Ends, hexpected, hlast, if_pos rfl, hresolved]
        exact ⟨rfl, reason, rfl⟩

end WalletParties

/-- The client waits for at most two tasks. -/
theorem waitsAtMost_runWalletHandshake (crypto : WireEd25519 Seed) (engine : Engine)
    (opts : WalletHandshakeOptions) (nonceC : Nonce) :
    (runWalletHandshake crypto.toEd25519 engine opts nonceC).waitsAtMost 2 := by
  rw [runWalletHandshake]
  split
  · trivial
  · apply waitsAtMost_attempt
    intro hello frame
    apply waitsAtMost_attempt
    intro decoded
    split
    · trivial
    · split
      · trivial
      · split
        · trivial
        · apply waitsAtMost_ed25519Verify
          intro serverOK
          split
          · trivial
          · split
            · trivial
            · apply waitsAtMost_ed25519Sign
              intro clientSig
              apply waitsAtMost_attempt
              intro proof
              trivial

/-- However the network delivers, a client and a server of the wallet handshake come to an end. The client
turns away from a session it did not ask for. Otherwise the server resolves the chain: it accepts the identity
that its policy gives, and then the client resolves, or it refuses, and then the client hears of it. -/
theorem wallet_conversation (parties : WalletParties) {events : List ClientEvent} :
    let machine := exchangeMachine parties.engine parties.peer parties.program
    let exchange := machine.run machine.init events
    machine.Legal machine.init events →
      events.length ≤ 2 + (exchange.answer parties.peer).written.length + 1 ∧
        (∀ outcome, exchange.rest = .settled outcome →
          parties.Ends (exchange.answer parties.peer).status (.settled outcome)) ∧
        (exchange.Quiet parties.peer → parties.Ends (exchange.answer parties.peer).status exchange.rest) := by
  intro machine exchange hlegal
  refine exchange_ends parties.program_meets ?_ ?_ hlegal
  · rw [parties.answer_nil]
    exact Nat.zero_le _
  · exact waitsAtMost_runWalletHandshake parties.crypto parties.engine parties.opts parties.nonceC

/-- Wallet 1 has delegated to connection key 3. -/
def walletChain : List (Delegation Bytes) :=
  let signed := Wallet.Delegation.sign plainEd25519.toEd25519 (plainSeed 1) (exampleFields 1 3 Wallet.allCaps)
  [⟨signed.content, signed.signature⟩]

def walletParties : WalletParties where
  crypto := plainEd25519
  engine := exampleEngine
  hasRoom := hasRoom_exampleEngine
  codec := plainWalletCodec
  server := ⟨plainSeed 2, true⟩
  env := exampleEnv
  nonceS := proofNonce
  opts := ⟨privateKey plainEd25519 (plainSeed 3), walletChain, some (plainSeed 2).1⟩
  seed := plainSeed 3
  connKey_eq := rfl
  nonceC := helloNonce
  length_hello_le := by decide +kernel

def walletChallengeFrame : Bytes := framed (plainWalletCodec.marshal walletParties.challenge)

def walletEvents : List ClientEvent :=
  [.binary (walletChallengeFrame.take 1), .binary (walletChallengeFrame.drop 1), .task, .task,
    .binary [ackOK], .closed 1000 ""]

abbrev walletMachine : Machine (Exchange Identity) ClientEvent :=
  exchangeMachine exampleEngine walletParties.peer walletParties.program

theorem walletEvents_legal : walletMachine.Legal walletMachine.init walletEvents := by decide +kernel

theorem wallet_conversation_example :
    let exchange := walletMachine.run walletMachine.init walletEvents
    walletMachine.Legal walletMachine.init walletEvents ∧
      walletParties.Ends (exchange.answer walletParties.peer).status exchange.rest :=
  ⟨walletEvents_legal, (wallet_conversation walletParties walletEvents_legal).2.2
    (Exchange.quiet_of_ended (by decide +kernel) (by decide +kernel))⟩

end Mosey.Typescript
