import Mosey.Typescript.Calls
import Mosey.Typescript.PlainProto

/-!
# A client and a server with certificates

The server writes its hello before it looks at the client's, and its proof before it looks at the client's.
So a client whose certificate is refused may find out when it sends its proof or when it waits for the
server's. A client whose signature does not verify under the key in its certificate has all it wants from the
server but the acknowledgement, and that wait does not end with the stream.
-/

namespace Mosey.Typescript

open Library Auth

/-- A client that takes the certificate of its server for what it is, and the server, which has drawn its
nonce. Their messages are within the limit. -/
structure CertParties where
  crypto : WireEd25519 Seed
  engine : Engine
  hasRoom : HasRoom engine
  codec : CertCodec
  runtime : Cert.Runtime
  auth : CertAuth Seed Bytes
  env : CertEnv
  nonceS : Nonce
  serverCert : Cert.Envelope Bytes
  localCert_eq : auth.localCert = some serverCert
  length_serverHello_le : (codec.marshal (.hello (some serverCert) nonceS.1)).length ≤ maxMessageSize
  opts : CertAuthOptions
  seed : Seed
  localPriv_eq : opts.localPriv = privateKey crypto seed
  clock : JSDate
  nonceC : Nonce
  length_hello_le : (wire [(1, certHelloWire ⟨opts.localCert, nonceC.1⟩)]).length ≤ maxMessageSize
  serverClaim : Claim
  signature : serverCert.signature.length = ED25519_SIGNATURE_SIZE
  verified : verifyCert crypto.toEd25519 engine serverCert
    ⟨opts.masterPub, opts.workspaceId, none, opts.revoked⟩ clock = .ok serverClaim
  peerPubkey_eq : serverClaim.peerPubkey = crypto.publicKey auth.localPriv

namespace CertParties

variable (parties : CertParties)

def listener : Listener (CertRun Seed Bytes) (Auth.CertHandshakeMessage Bytes) :=
  certListener parties.crypto.toEd25519 parties.runtime parties.env parties.nonceS

def peer : Peer := .ofListener parties.listener parties.codec (.awaitHello parties.auth false parties.nonceS.1)

def program : Async Identity :=
  runCertHandshake parties.crypto.toEd25519 parties.engine parties.opts parties.nonceC parties.clock

def hello : Bytes := wire [(1, certHelloWire ⟨parties.opts.localCert, parties.nonceC.1⟩)]

def serverHello : Bytes := parties.codec.marshal (.hello (some parties.serverCert) parties.nonceS.1)

def clientSig : Bytes := parties.crypto.sign parties.seed (proofContent parties.nonceS.1)

def proof : Bytes := wire [(2, wire [(1, parties.clientSig)])]

def serverSig : Bytes := parties.crypto.sign parties.auth.localPriv (proofContent parties.nonceC.1)

def serverProof : Bytes := parties.codec.marshal (.proof parties.serverSig)

/-- What the server makes of the client's certificate. -/
def checked : Except Auth.AuthError Cert.Claim :=
  CertRun.checkHello parties.crypto.toEd25519 parties.runtime parties.auth parties.env
    (some ⟨parties.opts.localCert.content, parties.opts.localCert.signature⟩) parties.nonceC.1

/-- What the server makes of the client's proof. -/
def verdict (claim : Cert.Claim) : Except Auth.AuthError Identity :=
  if parties.crypto.verify claim.peerPubKey (proofContent parties.nonceS.1) parties.clientSig then
    .ok (claimToIdentity claim)
  else .error (.rejected errPrefixCert ": peer proof signature invalid")

/-- How both sides end. -/
def Ends (status : ServeStatus) (rest : Rest Identity) : Prop :=
  match parties.checked with
  | .error err => status = .refused err ∧ ∃ reason, rest = .settled (.error (.stream reason))
  | .ok claim =>
    match parties.verdict claim with
    | .error err => status = .refused err ∧ rest = .ack certAck (claimIdentity parties.serverClaim)
    | .ok identity => status = .accepted identity ∧ rest = .settled (.ok (claimIdentity parties.serverClaim))

/-- They end so with the server at what it has been sent. -/
def EndsAt (sent : Bytes) : Rest Identity → Prop := parties.Ends (parties.peer.answer sent).status

theorem encodes_serverHello :
    Auth.CertHandshakeMessage.Encodes (.hello (some parties.serverCert) parties.nonceS.1) parties.serverHello :=
  parties.codec.encodes_marshal (.hello (encodesPair_wire _ _) (.inl rfl))

theorem encodes_serverProof :
    Auth.CertHandshakeMessage.Encodes (.proof parties.serverSig) parties.serverProof :=
  parties.codec.encodes_marshal (.proof (.inl rfl))

theorem encodes_proof : Auth.CertHandshakeMessage.Encodes (.proof parties.clientSig) parties.proof :=
  encodes_certProof _

theorem length_proof_le : parties.proof.length ≤ maxMessageSize :=
  parties.encodes_proof.length_proof_le (parties.crypto.length_sign _ _)

theorem length_serverProof_le : parties.serverProof.length ≤ maxMessageSize :=
  parties.encodes_serverProof.length_proof_le (parties.crypto.length_sign _ _)

/-- The client goes on with the server's claim. -/
theorem verifyPeerCert_eq (next : Except String Claim → Async Identity) :
    verifyPeerCert parties.crypto.toEd25519 parties.engine
        ⟨.bytes parties.serverCert.content, .bytes parties.serverCert.signature⟩
        ⟨parties.opts.masterPub, parties.opts.workspaceId, none, parties.opts.revoked⟩ parties.clock next =
      .later (next (.ok parties.serverClaim)) := by
  have hmaster : parties.opts.masterPub.length = ED25519_PUBLIC_KEY_SIZE := by
    have hverified := parties.verified
    rw [verifyCert] at hverified
    split_ifs at hverified with hmaster
    all_goals exact not_not.mp hmaster
  have hsignature := parties.signature
  unfold verifyPeerCert
  rw [if_neg (not_not.mpr hmaster)]
  dsimp only
  rw [if_neg (not_not.mpr hsignature), parties.verified]
  rfl

/-- The calls of the client. -/
theorem program_eq :
    ∃ next, parties.program = .sendFramed parties.hello (.readFramed next) ∧
      ∃ second, next parties.serverHello =
          .later (.later (.sendFramed parties.proof (.readFramed second))) ∧
        second parties.serverProof = .later (.readAck certAck (claimIdentity parties.serverClaim)) := by
  have hfits := maxMessageSize_le parties.hasRoom
  have hwrites : encodeCertHelloMessage parties.engine ⟨parties.opts.localCert, parties.nonceC.1⟩ =
      .ok parties.hello :=
    (writes_certHelloMessage parties.engine _).eq_ok (parties.length_hello_le.trans hfits)
  have hproof : encodeCertProofMessage parties.engine ⟨parties.clientSig⟩ = .ok parties.proof :=
    (writes_certProofMessage parties.engine _).eq_ok (parties.length_proof_le.trans hfits)
  have hnonce : parties.nonceS.1.length = CERT_NONCE_SIZE := parties.nonceS.2
  have hlabel (nonce : Bytes) : ascii CERT_PROOF_LABEL ++ nonce = proofContent nonce := rfl
  have hpublic : parties.serverClaim.peerPubkey.length = ED25519_PUBLIC_KEY_SIZE := by
    rw [parties.peerPubkey_eq]
    exact parties.crypto.length_publicKey _
  rw [program, runCertHandshake, hwrites]
  refine ⟨_, rfl, ?_⟩
  rw [decodeCertHandshakeMessage_encoded_hello parties.encodes_serverHello
    (parties.length_serverHello_le.trans hfits)]
  dsimp only [Except.mapError, Async.attempt]
  rw [verifyPeerCert_eq]
  dsimp only
  rw [ofLength_eq_ok hnonce]
  dsimp only
  rw [parties.localPriv_eq, ed25519Sign_privateKey, hlabel, ← clientSig, hproof]
  refine ⟨_, rfl, ?_⟩
  rw [decodeCertHandshakeMessage_encoded_proof parties.encodes_serverProof
    (parties.length_serverProof_le.trans hfits)]
  dsimp only
  rw [if_neg (not_not.mpr hpublic), hlabel, serverSig, ed25519Verify_sign parties.peerPubkey_eq,
    if_neg (by decide)]

theorem outcome_start : parties.listener.outcome (.awaitHello parties.auth false parties.nonceS.1) = none :=
  rfl

theorem answer_nil : parties.peer.answer [] = .waiting := Listener.serve_nil parties.codec parties.outcome_start

/-- The server answers the hello with its own, and serves what follows if the check passes. -/
theorem answer_hello_append (more : Bytes) :
    parties.peer.answer (framed parties.hello ++ more) =
      match parties.checked with
      | .error err => ⟨framed parties.serverHello, .refused err⟩
      | .ok claim => (parties.listener.serve parties.codec (.awaitProof parties.auth false parties.nonceS.1
          claim parties.serverSig) more).behind (framed parties.serverHello) := by
  have hencodes : Auth.CertHandshakeMessage.Encodes
      (.hello (some ⟨parties.opts.localCert.content, parties.opts.localCert.signature⟩) parties.nonceC.1)
      parties.hello := encodes_certHello ⟨parties.opts.localCert, parties.nonceC.1⟩
  refine (Listener.serve_framed parties.outcome_start hencodes parties.length_hello_le more).trans ?_
  rw [listener, receive_certHello, parties.localCert_eq, List.flatMap_singleton, parties.codec.marshalTo_eq,
    ← checked]
  cases parties.checked with
  | error err =>
    dsimp only
    rw [Listener.serve_of_outcome parties.codec rfl, Answer.final, Answer.behind, List.append_nil]
    rfl
  | ok claim => rfl

/-- What the server has written when it has read the hello. -/
theorem answer_hello :
    parties.peer.answer (framed parties.hello) = ⟨framed parties.serverHello,
      match parties.checked with
      | .error err => .refused err
      | .ok _ => .waiting⟩ := by
  rw [← List.append_nil (framed _), answer_hello_append]
  cases parties.checked with
  | error err => rfl
  | ok claim =>
    dsimp only
    rw [Listener.serve_nil parties.codec rfl, Answer.behind, Answer.waiting, List.append_nil]

/-- What the server has written when it has read both messages. -/
theorem answer_proof {claim : Cert.Claim} (hclaim : parties.checked = .ok claim) :
    parties.peer.answer (framed parties.hello ++ framed parties.proof) =
      ((Answer.final (parties.verdict claim)).behind (framed parties.serverProof)).behind
        (framed parties.serverHello) := by
  rw [answer_hello_append, hclaim, ← List.append_nil (framed parties.proof)]
  dsimp only
  rw [Listener.serve_framed rfl parties.encodes_proof parties.length_proof_le, listener, receive_certProof,
    List.flatMap_singleton, parties.codec.marshalTo_eq, verdict]
  cases parties.crypto.verify claim.peerPubKey (proofContent parties.nonceS.1) parties.clientSig with
  | true =>
    rw [if_pos rfl, if_pos rfl, Listener.serve_of_outcome parties.codec rfl]
    rfl
  | false =>
    rw [if_neg Bool.false_ne_true, if_neg Bool.false_ne_true, Listener.serve_of_outcome parties.codec rfl]
    rfl

/-- The rest of the handshake when the server has refused the certificate. The client may send its proof
before it hears of that. -/
theorem meets_refused {err : Auth.AuthError} (hrefused : parties.checked = .error err)
    (second : Bytes → Async Identity) :
    (Async.sendFramed parties.proof (.readFramed second)).meets parties.engine parties.peer parties.EndsAt
      (framed parties.hello) (framed parties.serverHello).length := by
  have hsame (more : Bytes) : parties.peer.answer (framed parties.hello ++ more) =
      ⟨framed parties.serverHello, .refused err⟩ := by
    rw [answer_hello_append, hrefused]
  have hends (more : Bytes) (reason : StreamError) :
      parties.EndsAt (framed parties.hello ++ more) (.settled (.error (.stream reason))) := by
    rw [EndsAt, Ends, hrefused, hsame]
    exact ⟨rfl, reason, rfl⟩
  apply meets_sendFramed (length_framed_lt parties.hasRoom parties.length_proof_le).le
  · rw [hsame]
    exact (length_framed_lt parties.hasRoom parties.length_serverHello_le).le
  · intro _ reason
    rw [← List.append_nil (framed _)]
    exact hends [] reason
  · apply meets_readFramed_done
    · rw [Peer.toRead, hsame, List.drop_length]
    · rw [Peer.done, hsame]
      rfl
    · exact hends _

/-- The rest of the handshake when the server has taken the certificate. -/
theorem meets_taken {claim : Cert.Claim} (hclaim : parties.checked = .ok claim)
    {second : Bytes → Async Identity}
    (hsecond : second parties.serverProof = .later (.readAck certAck (claimIdentity parties.serverClaim))) :
    (Async.sendFramed parties.proof (.readFramed second)).meets parties.engine parties.peer parties.EndsAt
      (framed parties.hello) (framed parties.serverHello).length := by
  have hlast := parties.answer_proof hclaim
  have hverdict : (Answer.final (parties.verdict claim)).written.length ≤ 1 := by
    cases parties.verdict claim with
    | error err => exact Nat.zero_le _
    | ok identity => exact le_rfl
  have hfits : (parties.peer.answer (framed parties.hello ++ framed parties.proof)).written.length ≤
      parties.engine.maxLength := by
    have hroom : 2 * (maxMessageSize + 5) ≤ parties.engine.maxLength := parties.hasRoom
    have hone : parties.serverHello.length ≤ maxMessageSize := parties.length_serverHello_le
    have hfirst := length_framed_le hone
    have hsecond := length_framed_le parties.length_serverProof_le
    have htwo := parties.length_serverProof_le
    rw [hlast]
    simp only [Answer.behind, List.length_append]
    omega
  have hread : parties.peer.toRead (framed parties.hello ++ framed parties.proof)
      (framed parties.serverHello ++ framed parties.serverProof).length =
        (Answer.final (parties.verdict claim)).written := by
    rw [Peer.toRead, hlast]
    dsimp only [Answer.behind]
    rw [← List.append_assoc, List.drop_left]
  apply meets_sendFramed (length_framed_lt parties.hasRoom parties.length_proof_le).le hfits
  · intro hdone
    rw [Peer.done, answer_hello, hclaim] at hdone
    cases hdone
  · refine meets_readFramed (congrArg Answer.written hlast) hfits ?_
    rw [hsecond, Async.meets]
    cases hresult : parties.verdict claim with
    | ok identity =>
      rw [hresult] at hread hlast
      refine meets_readAck hread ?_
      rw [EndsAt, Ends, hclaim, hlast]
      dsimp only
      rw [hresult]
      exact ⟨rfl, rfl⟩
    | error err =>
      rw [hresult] at hread hlast
      refine meets_readAck_done hread ?_ ?_
      · rw [Peer.done, hlast]
        rfl
      · rw [if_neg (by decide), EndsAt, Ends, hclaim, hlast]
        dsimp only
        rw [hresult]
        exact ⟨rfl, rfl⟩

/-- The client's function meets the server's answers, whichever way the conversation ends. -/
theorem program_meets : parties.program.meets parties.engine parties.peer parties.EndsAt [] 0 := by
  obtain ⟨next, hprogram, second, hnext, hsecond⟩ := parties.program_eq
  have hwritten := congrArg Answer.written parties.answer_hello
  have hstart : parties.peer.done [] = false := by
    rw [Peer.done, answer_nil]
    rfl
  rw [hprogram]
  refine meets_hello parties.hasRoom parties.length_hello_le hstart parties.length_serverHello_le hwritten ?_
  rw [← serverHello, hnext, Async.meets, Async.meets]
  cases hchecked : parties.checked with
  | error err => exact parties.meets_refused hchecked second
  | ok claim => exact parties.meets_taken hchecked hsecond

end CertParties

theorem waitsAtMost_verifyPeerCert {crypto : Ed25519 Seed Bytes} {engine : Engine} {cert : Cert JSValue}
    {opts : VerifyOptions} {clock : JSDate} {limit : ℕ} {next : Except String Claim → Async Identity}
    (hnext : ∀ verified, (next verified).waitsAtMost limit) :
    (verifyPeerCert crypto engine cert opts clock next).waitsAtMost (limit + 1) := by
  unfold verifyPeerCert
  split
  · exact waitsAtMost_succ (hnext _)
  · split
    · exact waitsAtMost_succ (hnext _)
    · split
      · exact waitsAtMost_succ (hnext _)
      · split <;> exact hnext _

/-- The client waits for at most three tasks. -/
theorem waitsAtMost_runCertHandshake (crypto : WireEd25519 Seed) (engine : Engine) (opts : CertAuthOptions)
    (nonceC : Nonce) (clock : JSDate) :
    (runCertHandshake crypto.toEd25519 engine opts nonceC clock).waitsAtMost 3 := by
  apply waitsAtMost_attempt
  intro hello helloFrame
  apply waitsAtMost_attempt
  intro helloDecoded
  split
  · trivial
  · apply waitsAtMost_verifyPeerCert
    intro verified
    split
    · trivial
    · split
      · trivial
      · apply waitsAtMost_ed25519Sign
        intro mySig
        apply waitsAtMost_attempt
        intro proof proofFrame
        apply waitsAtMost_attempt
        intro proofDecoded
        split
        · trivial
        · split
          · trivial
          · apply waitsAtMost_ed25519Verify
            intro sigOK
            split
            · trivial
            · trivial

/-- However the network delivers, the client and the server come to an end. A client whose certificate is
refused hears of it, and one whose signature does not verify under the key in its certificate waits for ever.
Otherwise both accept. -/
theorem cert_conversation (parties : CertParties) {events : List ClientEvent} :
    let machine := exchangeMachine parties.engine parties.peer parties.program
    let exchange := machine.run machine.init events
    machine.Legal machine.init events →
      events.length ≤ 3 + (exchange.answer parties.peer).written.length + 1 ∧
        (∀ outcome, exchange.rest = .settled outcome →
          parties.Ends (exchange.answer parties.peer).status (.settled outcome)) ∧
        (exchange.Quiet parties.peer → parties.Ends (exchange.answer parties.peer).status exchange.rest) := by
  intro machine exchange hlegal
  refine exchange_ends parties.program_meets ?_ ?_ hlegal
  · rw [parties.answer_nil]
    exact Nat.zero_le _
  · exact waitsAtMost_runCertHandshake parties.crypto parties.engine parties.opts parties.nonceC parties.clock

def plainCert : Cert.Envelope Bytes := ⟨exampleContent, plainEd25519.sign (plainSeed 1) exampleContent⟩

/-- The client has the certificate of the server, and its key too. -/
def plainParties : CertParties where
  crypto := plainEd25519
  engine := exampleEngine
  hasRoom := hasRoom_exampleEngine
  codec := plainCertCodec
  runtime := Cert.readingRuntime
  auth := ⟨some plainCert, plainSeed 7, (plainSeed 1).1, "w"⟩
  env := ⟨0, []⟩
  nonceS := proofNonce
  serverCert := plainCert
  localCert_eq := rfl
  length_serverHello_le := by decide +kernel
  opts := ⟨(plainSeed 1).1, "w", ⟨plainCert.content, plainCert.signature⟩,
    privateKey plainEd25519 (plainSeed 7), none⟩
  seed := plainSeed 7
  localPriv_eq := rfl
  clock := some 0
  nonceC := helloNonce
  length_hello_le := by decide +kernel
  serverClaim := ⟨"", (plainSeed 7).1, "hi", .finite 7, some 0, some 1809129600000, "", "w"⟩
  signature := rfl
  verified := by decide +kernel
  peerPubkey_eq := rfl

abbrev certMachine : Machine (Exchange Identity) ClientEvent :=
  exchangeMachine exampleEngine plainParties.peer plainParties.program

/-- The server's two messages and its acknowledgement arrive in three frames. -/
def certEvents : List ClientEvent :=
  [.binary (framed plainParties.serverHello), .task, .task, .binary (framed plainParties.serverProof), .task,
    .binary [ackOK], .closed 1000 ""]

theorem certEvents_legal : certMachine.Legal certMachine.init certEvents := by decide +kernel

theorem cert_conversation_example :
    let exchange := certMachine.run certMachine.init certEvents
    certMachine.Legal certMachine.init certEvents ∧
      plainParties.Ends (exchange.answer plainParties.peer).status exchange.rest :=
  ⟨certEvents_legal, (cert_conversation plainParties certEvents_legal).2.2
    (Exchange.quiet_of_ended (by decide +kernel) (by decide +kernel))⟩

end Mosey.Typescript
