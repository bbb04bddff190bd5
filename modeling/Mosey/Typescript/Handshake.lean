import Mosey.Auth.Handshake
import Mosey.Auth.PSKNetwork
import Mosey.Auth.WalletPolicy
import Mosey.Typescript.Cert
import Mosey.Typescript.Closing
import Mosey.Typescript.WalletDelegation

/-!
# The handshakes of the TypeScript client

The client dials, so it writes first in each of the three handshakes. It sends its own proof only to a
server that has proved itself, and resolves when the server has acknowledged. A value from the wire is
whatever was in the field, so a number may stand where a key is expected: it has no length and fails every
check of one. The nonce and the clock are what the environment answers.
-/

namespace Mosey.Typescript

open Library Auth

def ED25519_PUBLIC_KEY_SIZE : ℕ := 32

def ED25519_PRIVATE_KEY_SIZE : ℕ := 64

def ED25519_SIGNATURE_SIZE : ℕ := 64

/-- WebCrypto imports the seed of a private key. -/
abbrev Seed := { seed : Bytes // seed.length = 32 }

variable {Result : Type}

section

variable (crypto : Ed25519 Seed Bytes)

/-- A key that cannot be imported throws, and a signature of another length is not verified at all. -/
def ed25519Verify (publicKey message : Bytes) (signature : JSValue) (next : Bool → Async Result) :
    Async Result :=
  if publicKey.length ≠ ED25519_PUBLIC_KEY_SIZE then
    .throws (.error ("mosey/crypto: Ed25519 public key length " ++ toString publicKey.length ++ ", want " ++
      toString ED25519_PUBLIC_KEY_SIZE))
  else
    match signature with
    | .bigint _ => next false
    | .bytes signature =>
      if signature.length ≠ ED25519_SIGNATURE_SIZE then next false
      else .later (next (crypto.verify publicKey message signature))

def ed25519Sign (privateKey message : Bytes) (next : Bytes → Async Result) : Async Result :=
  if hlength : privateKey.length = ED25519_PRIVATE_KEY_SIZE then
    .later (next (crypto.sign ⟨privateKey.take 32, by rw [List.length_take, hlength]; rfl⟩ message))
  else
    .throws (.error ("mosey/crypto: Ed25519 private key length " ++ toString privateKey.length ++ ", want " ++
      toString ED25519_PRIVATE_KEY_SIZE))

end

/-- The loop looks at every byte. -/
def constantTimeEqual : JSValue → Bytes → Bool
  | .bigint _, _ => false
  | .bytes a, b =>
    if a.length ≠ b.length then false else (a.zip b).foldl (fun diff (x, y) ↦ diff ||| (x ^^^ y)) (0 : UInt8) = 0

/-- The value if it is bytes of this length, and otherwise its length as it is written in a message. -/
def JSValue.ofLength (length : ℕ) : JSValue → Except String Bytes
  | .bigint _ => .error "undefined"
  | .bytes value => if value.length = length then .ok value else .error (toString value.length)

/-- `Object.keys` of what was decoded. -/
def summarize (keys : List String) : String := if keys = [] then "<empty>" else ",".intercalate keys

def keyIf {Value : Type} (key : String) (field : Option Value) : List String :=
  if field.isSome then [key] else []

def PSK_HKDF_INFO : String := "mosey.v1.psk"

def MAC_LABEL_SERVER : String := "mosey-auth-v1:S"

def MAC_LABEL_CLIENT : String := "mosey-auth-v1:C"

def NONCE_SIZE : ℕ := 32

/-- Empty strings are left out. -/
def encodeStringField (engine : Engine) (field : ℕ) (value : String) : Except RangeError Bytes :=
  if value = "" then .ok [] else encodeBytesField engine field (Utf8.encode value.toList)

def encodeAuthClientHello (engine : Engine) (h : ClientHello Bytes) : Except RangeError Bytes := do
  let nonce ← encodeBytesField engine 1 h.nonce
  let label ← encodeStringField engine 2 h.label
  let inner ← concat engine [nonce, label]
  encodeBytesField engine 1 inner

def encodeAuthClientProof (engine : Engine) (p : ClientProof Bytes) : Except RangeError Bytes := do
  let inner ← encodeBytesField engine 1 p.mac
  encodeBytesField engine 3 inner

structure PSKAuthOptions where
  secret : String
  label : Option String

def AuthMessage.keys (decoded : AuthMessage JSValue) : List String :=
  keyIf "clientHello" decoded.clientHello ++ keyIf "serverProof" decoded.serverProof ++
    keyIf "clientProof" decoded.clientProof

def labelBytes (label : String) : Bytes := ascii label

def pskAck : AckReader := ⟨"psk", false⟩

section

variable {Key : Type} (crypto : PSKCrypto Key Bytes) (engine : Engine)

def derivePSKKey (secret : String) (next : Key → Async Result) : Async Result :=
  .later (next (crypto.hkdf secret PSK_HKDF_INFO))

def hmacSHA256 (key : Key) (parts : List Bytes) (next : Bytes → Async Result) : Async Result :=
  .later (next (crypto.mac key parts.flatten))

def runPSKHandshake (opts : PSKAuthOptions) (nonceC : Nonce) : Async Unit :=
  derivePSKKey crypto opts.secret fun key ↦
  let label := opts.label.getD ""
  .attempt ((encodeAuthClientHello engine ⟨nonceC.1, label⟩).mapError .range) fun hello ↦
  .sendFramed hello <| .readFramed fun proofMsg ↦
  .attempt ((decodeAuthMessage engine proofMsg).mapError .auth) fun decoded ↦
  match decoded.serverProof with
  | none => .throws (.error ("mosey/auth(psk): expected ServerProof, got " ++ summarize decoded.keys))
  | some ⟨nonce, macS⟩ =>
    match nonce.ofLength NONCE_SIZE with
    | .error length =>
      .throws (.error ("mosey/auth(psk): server nonce length " ++ length ++ ", want " ++ toString NONCE_SIZE))
    | .ok nonceS =>
      hmacSHA256 crypto key [labelBytes MAC_LABEL_SERVER, nonceC.1, nonceS] fun expectedServerMac ↦
      if constantTimeEqual macS expectedServerMac = false then
        .throws (.error "mosey/auth(psk): server MAC mismatch (wrong secret or replay)")
      else
        hmacSHA256 crypto key [labelBytes MAC_LABEL_CLIENT, nonceS, nonceC.1] fun macC ↦
        .attempt ((encodeAuthClientProof engine ⟨macC⟩).mapError .range) fun proof ↦
        .sendFramed proof (.readAck pskAck ())

end

def CERT_PROOF_LABEL : String := "mosey-cert-v1"

def CERT_NONCE_SIZE : ℕ := 32

structure CertAuthOptions where
  masterPub : Bytes
  workspaceId : String
  localCert : Cert Bytes
  localPriv : Bytes
  revoked : Option (List String)

def CertHandshakeMessage.keys (decoded : CertHandshakeMessage JSValue) : List String :=
  keyIf "hello" decoded.hello ++ keyIf "proof" decoded.proof

/-- The bitwise operators take a number as an integer. -/
def JSNumber.hasBit (number : JSNumber) (bit : ℕ) : Bool :=
  match number with
  | .nan => false
  | .finite value => ⌊value⌋₊ &&& bit ≠ 0

def certAck : AckReader := ⟨"cert", false⟩

def claimIdentity (claim : Claim) : Identity :=
  let owner := claim.capsBits.hasBit 1
  let write := claim.capsBits.hasBit 2
  let resize := claim.capsBits.hasBit 4
  ⟨claim.label, owner, write || owner, resize || owner⟩

section

variable (crypto : Ed25519 Seed Bytes) (engine : Engine)

/-- `verifyCert` on a certificate from the wire, with the message of its error. -/
def verifyPeerCert (cert : Cert JSValue) (opts : VerifyOptions) (clock : JSDate)
    (next : Except String Claim → Async Result) : Async Result :=
  if opts.masterPub.length ≠ ED25519_PUBLIC_KEY_SIZE then
    next (.error ((CertError.masterKeyLength opts.masterPub.length).message engine))
  else
    match cert.signature with
    | .bigint _ => next (.error (CertError.invalidSignature.message engine))
    | .bytes signature =>
      if signature.length ≠ ED25519_SIGNATURE_SIZE then
        next (.error (CertError.invalidSignature.message engine))
      else
        match cert.content with
        | .bigint content => .later (next (.error (engine.notBytesMessage content)))
        | .bytes content =>
          .later (next ((verifyCert crypto engine ⟨content, signature⟩ opts clock).mapError
            (CertError.message engine)))

def runCertHandshake (opts : CertAuthOptions) (myNonce : Nonce) (clock : JSDate) : Async Identity :=
  .attempt ((encodeCertHelloMessage engine ⟨opts.localCert, myNonce.1⟩).mapError .range) fun hello ↦
  .sendFramed hello <| .readFramed fun helloFrame ↦
  .attempt ((decodeCertHandshakeMessage engine (.bytes helloFrame)).mapError .decode) fun helloDecoded ↦
  match helloDecoded.hello with
  | none => .throws (.error ("mosey/auth(cert): expected CertHello, got " ++ summarize helloDecoded.keys))
  | some peerHello =>
    verifyPeerCert crypto engine peerHello.cert ⟨opts.masterPub, opts.workspaceId, none, opts.revoked⟩
      clock fun verified ↦
    match verified with
    | .error err => .throws (.error ("mosey/auth(cert): peer cert: " ++ err))
    | .ok peerClaim =>
      match peerHello.nonce.ofLength CERT_NONCE_SIZE with
      | .error length =>
        .throws (.error ("mosey/auth(cert): peer nonce length " ++ length ++ ", want " ++
          toString CERT_NONCE_SIZE))
      | .ok peerNonce =>
        ed25519Sign crypto opts.localPriv (ascii CERT_PROOF_LABEL ++ peerNonce) fun mySig ↦
        .attempt ((encodeCertProofMessage engine ⟨mySig⟩).mapError .range) fun proof ↦
        .sendFramed proof <| .readFramed fun proofFrame ↦
        .attempt ((decodeCertHandshakeMessage engine (.bytes proofFrame)).mapError .decode)
          fun proofDecoded ↦
        match proofDecoded.proof with
        | none =>
          .throws (.error ("mosey/auth(cert): expected SignedNonce, got " ++ summarize proofDecoded.keys))
        | some peerProof =>
          if peerClaim.peerPubkey.length ≠ ED25519_PUBLIC_KEY_SIZE then
            .throws (.error ("mosey/auth(cert): peer cert pubkey length " ++
              toString peerClaim.peerPubkey.length ++ ", want " ++ toString ED25519_PUBLIC_KEY_SIZE))
          else
            ed25519Verify crypto peerClaim.peerPubkey (ascii CERT_PROOF_LABEL ++ myNonce.1)
              peerProof.signature fun sigOK ↦
            if sigOK = false then .throws (.error "mosey/auth(cert): peer proof signature invalid")
            else .readAck certAck (claimIdentity peerClaim)

end

def WALLET_NONCE_SIZE : ℕ := 32

def SERVER_LABEL : String := "mosey-wallet-v1:server"

def CLIENT_LABEL : String := "mosey-wallet-v1:client"

structure WalletHandshakeOptions where
  connKey : Bytes
  delegationChain : List (Delegation Bytes)
  expectSession : Option Bytes

def WalletHandshakeMessage.keys (decoded : WalletHandshakeMessage JSValue) : List String :=
  keyIf "hello" decoded.hello ++ keyIf "challenge" decoded.challenge ++ keyIf "proof" decoded.proof

def transcript (label : String) (a b sessionID : Bytes) : Bytes := [ascii label, a, b, sessionID].flatten

def leafIdentity (sessionKey : Bytes) (chain : List (Delegation Bytes)) : Identity :=
  let caps :=
    match chain.getLast? with
    | none => 0
    | some leaf =>
      match parseContent leaf.content with
      | .ok fields => fields.caps
      | .error _ => 0
  ⟨"wallet:" ++ String.ofList (base58Encode sessionKey), false, caps &&& CapWrite ≠ 0, caps &&& CapResize ≠ 0⟩

def walletAck : AckReader := ⟨"wallet", true⟩

section

variable (crypto : Ed25519 Seed Bytes) (engine : Engine)

def runWalletHandshake (opts : WalletHandshakeOptions) (nonceC : Nonce) : Async Identity :=
  if opts.connKey.length ≠ ED25519_PRIVATE_KEY_SIZE then
    .throws (.error ("mosey/auth(wallet): connKey must be " ++ toString ED25519_PRIVATE_KEY_SIZE ++
      " bytes, got " ++ toString opts.connKey.length))
  else
    let connPub := (opts.connKey.drop 32).take 32
    .attempt ((encodeWalletHelloMessage engine ⟨connPub, nonceC.1, opts.delegationChain⟩).mapError .range)
      fun hello ↦
    .sendFramed hello <| .readFramed fun frame ↦
    .attempt ((decodeWalletHandshakeMessage engine (.bytes frame)).mapError .decode) fun decoded ↦
    match decoded.challenge with
    | none => .throws (.error ("mosey/auth(wallet): expected challenge, got " ++ summarize decoded.keys))
    | some challenge =>
      match challenge.sessionKey.ofLength ED25519_PUBLIC_KEY_SIZE with
      | .error length => .throws (.error ("mosey/auth(wallet): session_key length " ++ length))
      | .ok sessionKey =>
        match challenge.nonceS.ofLength WALLET_NONCE_SIZE with
        | .error length => .throws (.error ("mosey/auth(wallet): nonce_s length " ++ length))
        | .ok nonceS =>
          ed25519Verify crypto sessionKey (transcript SERVER_LABEL nonceC.1 nonceS sessionKey)
            challenge.serverSig fun serverOK ↦
          if serverOK = false then .throws (.error "mosey/auth(wallet): server proof signature invalid")
          else if opts.expectSession.any (fun expected ↦
              constantTimeEqual (.bytes sessionKey) expected = false) then
            .throws (.error ("mosey/auth(wallet): server presented session " ++
              String.ofList (base58Encode sessionKey) ++ ", expected " ++
              String.ofList (base58Encode (opts.expectSession.getD []))))
          else
            ed25519Sign crypto opts.connKey (transcript CLIENT_LABEL nonceS nonceC.1 sessionKey)
              fun clientSig ↦
            .attempt ((encodeWalletProofMessage engine ⟨clientSig⟩).mapError .range) fun proof ↦
            .sendFramed proof (.readAck walletAck (leafIdentity sessionKey opts.delegationChain))

end

/-! ## The client -/

/-- The certificate is given decoded. -/
inductive AuthConfig
  | psk (opts : PSKAuthOptions)
  | cert (opts : CertAuthOptions)
  | wallet (opts : WalletHandshakeOptions)

def Async.discard : Async Result → Async Unit
  | throws err => throws err
  | later next => later next.discard
  | sendFramed body next => sendFramed body next.discard
  | readFramed next => readFramed fun body ↦ (next body).discard
  | readAck reader _ => readAck reader ()

section

variable {Key : Type} (mac : PSKCrypto Key Bytes) (crypto : Ed25519 Seed Bytes) (engine : Engine)

def runAuth (nonce : Nonce) (clock : JSDate) : AuthConfig → Async Unit
  | .psk opts => runPSKHandshake mac engine opts nonce
  | .cert opts => (runCertHandshake crypto engine opts nonce clock).discard
  | .wallet opts => (runWalletHandshake crypto engine opts nonce).discard

end

def AuthConfig.ack : AuthConfig → AckReader
  | psk _ => pskAck
  | cert _ => certAck
  | wallet _ => walletAck

section AcksWith

variable {reader : AckReader}

theorem acksWith_attempt {Value : Type} {value : Except ClientError Value} {next : Value → Async Result}
    (hnext : ∀ value, (next value).AcksWith reader) : (Async.attempt value next).AcksWith reader := by
  cases value with
  | error err => trivial
  | ok value => exact hnext value

theorem acksWith_discard {program : Async Result} (hprogram : program.AcksWith reader) :
    program.discard.AcksWith reader := by
  induction program with
  | throws err => trivial
  | later next ih => exact ih hprogram
  | sendFramed body next ih => exact ih hprogram
  | readFramed next ih => exact fun body ↦ ih body (hprogram body)
  | readAck other result => exact hprogram

variable {crypto : Ed25519 Seed Bytes} {engine : Engine}

theorem acksWith_ed25519Verify {publicKey message : Bytes} {signature : JSValue} {next : Bool → Async Result}
    (hnext : ∀ valid, (next valid).AcksWith reader) :
    (ed25519Verify crypto publicKey message signature next).AcksWith reader := by
  unfold ed25519Verify
  split
  · trivial
  · split
    · exact hnext false
    · split
      · exact hnext false
      · exact hnext _

theorem acksWith_ed25519Sign {privateKey message : Bytes} {next : Bytes → Async Result}
    (hnext : ∀ signature, (next signature).AcksWith reader) :
    (ed25519Sign crypto privateKey message next).AcksWith reader := by
  unfold ed25519Sign
  split
  · exact hnext _
  · trivial

/-- Verifying the peer's certificate reads no acknowledgement. -/
theorem acksWith_verifyPeerCert {cert : Cert JSValue} {opts : VerifyOptions} {clock : JSDate}
    {next : Except String Claim → Async Result} (hnext : ∀ verified, (next verified).AcksWith reader) :
    (verifyPeerCert crypto engine cert opts clock next).AcksWith reader := by
  unfold verifyPeerCert
  split
  · exact hnext _
  · split
    · exact hnext _
    · split
      · exact hnext _
      · split <;> exact hnext _

end AcksWith

/-- The only acknowledgement that the function of the shared secret awaits is its own. -/
theorem acksWith_runPSKHandshake {Key : Type} (crypto : PSKCrypto Key Bytes) (engine : Engine)
    (opts : PSKAuthOptions) (nonceC : Nonce) :
    (runPSKHandshake crypto engine opts nonceC).AcksWith pskAck := by
  apply acksWith_attempt
  intro hello proofMsg
  apply acksWith_attempt
  intro decoded
  split
  · trivial
  · split
    · trivial
    · dsimp only [hmacSHA256, Async.AcksWith]
      split
      · trivial
      · apply acksWith_attempt
        intro proof
        rfl

/-- The only acknowledgement that the function of the certificates awaits is its own. -/
theorem acksWith_runCertHandshake (crypto : Ed25519 Seed Bytes) (engine : Engine) (opts : CertAuthOptions)
    (myNonce : Nonce) (clock : JSDate) :
    (runCertHandshake crypto engine opts myNonce clock).AcksWith certAck := by
  apply acksWith_attempt
  intro hello helloFrame
  apply acksWith_attempt
  intro helloDecoded
  split
  · trivial
  · apply acksWith_verifyPeerCert
    intro verified
    split
    · trivial
    · split
      · trivial
      · apply acksWith_ed25519Sign
        intro mySig
        apply acksWith_attempt
        intro proof proofFrame
        apply acksWith_attempt
        intro proofDecoded
        split
        · trivial
        · split
          · trivial
          · apply acksWith_ed25519Verify
            intro sigOK
            split
            · trivial
            · rfl

/-- The only acknowledgement that the function of the wallets awaits is its own. -/
theorem acksWith_runWalletHandshake (crypto : Ed25519 Seed Bytes) (engine : Engine)
    (opts : WalletHandshakeOptions) (nonceC : Nonce) :
    (runWalletHandshake crypto engine opts nonceC).AcksWith walletAck := by
  rw [runWalletHandshake]
  split
  · trivial
  · apply acksWith_attempt
    intro hello frame
    apply acksWith_attempt
    intro decoded
    split
    · trivial
    · split
      · trivial
      · split
        · trivial
        · apply acksWith_ed25519Verify
          intro serverOK
          split
          · trivial
          · split
            · trivial
            · apply acksWith_ed25519Sign
              intro clientSig
              apply acksWith_attempt
              intro proof
              rfl

/-- A client awaits the acknowledgement of the method it is configured with. -/
theorem acksWith_runAuth {Key : Type} (mac : PSKCrypto Key Bytes) (crypto : Ed25519 Seed Bytes)
    (engine : Engine) (nonce : Nonce) (clock : JSDate) (config : AuthConfig) :
    (runAuth mac crypto engine nonce clock config).AcksWith config.ack := by
  cases config with
  | psk opts => exact acksWith_runPSKHandshake mac engine opts nonce
  | cert opts => exact acksWith_discard (acksWith_runCertHandshake crypto engine opts nonce clock)
  | wallet opts => exact acksWith_discard (acksWith_runWalletHandshake crypto engine opts nonce)

section Runs

variable {Key : Type} (mac : PSKCrypto Key Bytes) (crypto : Ed25519 Seed Bytes) (engine : Engine)
  (nonce : Nonce) (clock : JSDate) (config : AuthConfig)

def authMachine : Machine (Running Unit) ClientEvent :=
  asyncMachine engine (runAuth mac crypto engine nonce clock config)

instance (running : Running Unit) (event : ClientEvent) :
    Decidable ((authMachine mac crypto engine nonce clock config).allowed running event) :=
  inferInstanceAs (Decidable
    ((asyncMachine engine (runAuth mac crypto engine nonce clock config)).allowed running event))

/-- However the frames are cut and whenever the tasks end, a handshake does what it would do in sequence on
the bytes that have arrived. The end of the stream is heard at the next wait, behind what has arrived. -/
theorem handshake_reads_in_sequence {events : List ClientEvent}
    (hlegal : (authMachine mac crypto engine nonce clock config).Legal
      (authMachine mac crypto engine nonce clock config).init events)
    (hsteady : (authMachine mac crypto engine nonce clock config).Along (Steady engine)
      (authMachine mac crypto engine nonce clock config).init events) :
    let machine := authMachine mac crypto engine nonce clock config
    let running := machine.run machine.init events
    let position := (runAuth mac crypto engine nonce clock config).sequential engine (tasksEnded events)
      (received events)
    running.stream.sent = position.sent ∧ running.awaiting.rest = position.rest ∧
      ∀ last reason count, last.closeReason = some reason →
        machine.Legal running (last :: List.replicate count .task) →
        (machine.run running (last :: List.replicate count .task)).awaiting.rest =
          position.closedRest engine reason count := by
  intro machine running position
  have hstands := (proceed_stands idle_newStream (runAuth mac crypto engine nonce clock config)).run
    hlegal hsteady
  have hposition : ((runAuth mac crypto engine nonce clock config).sequential engine
      (tasksEnded events + 0) ([] ++ (received events ++ []))).behind [] = position := by
    rw [Nat.add_zero, List.nil_append, List.append_nil]
    rfl
  obtain ⟨hsent, hrest, -⟩ := hstands.position_eq
  refine ⟨?_, ?_, ?_⟩
  · exact hsent.symm.trans (congrArg Position.sent hposition)
  · exact hrest.symm.trans (congrArg Position.rest hposition)
  · intro last reason count hreason hlegal
    have hclosed := hstands.fail reason
    rw [← step_of_closeReason hreason] at hclosed
    calc
      _ = _ := (hclosed.run hlegal.2).rest_eq.2.2
      _ = _ := congrArg (fun position ↦ Position.closedRest engine reason position count) hposition

/-- When the stream is closed and no task is left, a handshake over a wallet has its outcome. The other two
may have sent their proof and wait for an acknowledgement, and nothing but data ends that wait. -/
theorem handshake_hears_of_close (events : List ClientEvent) :
    let machine := authMachine mac crypto engine nonce clock config
    let running := machine.run machine.init events
    running.stream.closed = true → running.awaiting.isTask = false →
      running.awaiting.isSettled = true ∨
        ((∀ opts, config ≠ .wallet opts) ∧ ∃ closing,
          ∀ later : List ClientEvent, (∀ event ∈ later, ∀ chunk, event ≠ .binary chunk) →
            (machine.run running later).awaiting = .ack config.ack closing ()) := by
  intro machine running hclosed htask
  have htold : Told config.ack running :=
    told_run (acksWith_runAuth mac crypto engine nonce clock config) events
  rcases htold.of_closed hclosed htask with hsettled | ⟨hwatches, closing, result, hack⟩
  · exact .inl hsettled
  · refine .inr ⟨?_, closing, fun later hlater ↦ htold.unwatched_run hwatches hack hlater⟩
    rintro opts rfl
    cases hwatches

end Runs

/-! ## Example

Codes and signatures that are bytes, from which nothing is hidden. -/

/-- The code of a content is the key and the content. -/
def plainPSK : PSKCrypto Bytes Bytes where
  mac key content := Varint.encode key.length ++ (key ++ content)
  mac_injective := by
    intro key key' content content' heq
    obtain ⟨hlength, heq⟩ := (Varint.terminated_encode _).append_inj (Varint.terminated_encode _) heq
    have hsame : key.length = key'.length := by
      rw [← Varint.value_encode key.length, hlength, Varint.value_encode]
    exact List.append_inj heq hsame
  hkdf secret _ := Utf8.encode secret.toList
  hkdf_injective := by
    intro secret secret' info heq
    have hlist : secret.toList = secret'.toList := by
      rw [← Utf8.decode_encode secret.toList, heq, Utf8.decode_encode]
    exact String.toList_injective hlist

/-- A key is its own public half, and a signature is the key twice. -/
def plainSignatures : Ed25519 Seed Bytes where
  publicKey seed := seed.1
  sign seed _ := seed.1 ++ seed.1
  verify key _ signature := signature = key ++ key
  verify_sign seed content := by simp
  size := List.length
  length_publicKey seed := seed.2
  size_sign seed content := by rw [List.length_append, seed.2]; rfl

def plainEd25519 : WireEd25519 Seed where
  toEd25519 := plainSignatures
  size_eq _ := rfl

def plainSeed (byte : UInt8) : Seed := freeNonce byte

def viewerOptions : PSKAuthOptions := ⟨viewer.secret, some viewer.label⟩

def viewerServerMac : Bytes :=
  PSKAuth.mac plainPSK (PSKAuth.derivePSKKey plainPSK viewer.secret) Auth.macLabelServer helloNonce.1 proofNonce.1

def viewerServerFrame : Bytes :=
  let body := wire [(2, wire [(1, proofNonce.1), (2, viewerServerMac)])]
  Varint.encode body.length ++ body

abbrev viewerMachine : Machine (Running Unit) ClientEvent :=
  authMachine plainPSK plainEd25519.toEd25519 exampleEngine helloNonce none (.psk viewerOptions)

/-- The proof of the server arrives in two frames, one of them before the client has its key. -/
def viewerEvents : List ClientEvent :=
  [.binary (viewerServerFrame.take 40), .task, .binary (viewerServerFrame.drop 40), .task, .task]

theorem viewerEvents_legal : viewerMachine.Legal viewerMachine.init viewerEvents := by decide +kernel

theorem viewerEvents_steady :
    viewerMachine.Along (Steady exampleEngine) viewerMachine.init viewerEvents := by decide +kernel

theorem handshake_reads_in_sequence_viewer :
    received viewerEvents = viewerServerFrame ∧
      viewerMachine.Legal viewerMachine.init viewerEvents ∧
      viewerMachine.Along (Steady exampleEngine) viewerMachine.init viewerEvents ∧
      (viewerMachine.run viewerMachine.init viewerEvents).awaiting.rest =
        ((runAuth plainPSK plainEd25519.toEd25519 exampleEngine helloNonce none (.psk viewerOptions)).sequential
          exampleEngine (tasksEnded viewerEvents) (received viewerEvents)).rest :=
  ⟨by decide +kernel, viewerEvents_legal, viewerEvents_steady,
    (handshake_reads_in_sequence plainPSK plainEd25519.toEd25519 exampleEngine helloNonce none
      (.psk viewerOptions) viewerEvents_legal viewerEvents_steady).2.1⟩

/-- The server has gone before it acknowledged, and the viewer waits. -/
theorem handshake_hears_of_close_viewer :
    let closed := viewerMachine.run viewerMachine.init (viewerEvents ++ [.closed 1000 ""])
    closed.stream.closed = true ∧ closed.awaiting.isTask = false ∧ closed.awaiting.isSettled = false ∧
      ∃ closing, ∀ later : List ClientEvent, (∀ event ∈ later, ∀ chunk, event ≠ .binary chunk) →
        (viewerMachine.run closed later).awaiting = .ack pskAck closing () := by
  have hclosed : (viewerMachine.run viewerMachine.init (viewerEvents ++ [.closed 1000 ""])).stream.closed =
      true := by decide +kernel
  have htask : (viewerMachine.run viewerMachine.init (viewerEvents ++ [.closed 1000 ""])).awaiting.isTask =
      false := by decide +kernel
  have hopen : (viewerMachine.run viewerMachine.init
      (viewerEvents ++ [.closed 1000 ""])).awaiting.isSettled = false := by decide +kernel
  refine ⟨hclosed, htask, hopen, ?_⟩
  rcases handshake_hears_of_close plainPSK plainEd25519.toEd25519 exampleEngine helloNonce none
    (.psk viewerOptions) (viewerEvents ++ [.closed 1000 ""]) hclosed htask with hsettled | ⟨-, hwaits⟩
  · exact absurd (hopen.symm.trans hsettled) (by decide)
  · exact hwaits

end Mosey.Typescript
