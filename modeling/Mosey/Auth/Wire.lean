import Mosey.Auth.Cert
import Mosey.Auth.Delimited
import Mosey.Auth.PSK
import Mosey.Auth.Wallet

/-!
# The handshake messages on the wire

Each message is one variant of a oneof, and its fields are bytes with a tag and a length in front. A field
that is empty may be left out, so a message has several encodings. With a library that writes and reads these
encodings, each handshake is a listener on a stream of bytes.
-/

namespace Mosey.Auth

open Library PSKAuth

/-- Fields with a length, one behind the other. -/
def marshalFields (entries : List (ℕ × Bytes)) : Bytes :=
  entries.flatMap fun entry ↦
    Varint.encode (entry.1 * 8 + 2) ++ (Varint.encode entry.2.length ++ entry.2)

theorem marshalFields_append (first second : List (ℕ × Bytes)) :
    marshalFields (first ++ second) = marshalFields first ++ marshalFields second :=
  List.flatMap_append

/-- Eleven bytes hold a small tag and a length. -/
theorem length_marshalFields_singleton_le {number : ℕ} {bytes : Bytes} (hnumber : number < 15)
    (hbytes : bytes.length < 2 ^ 64) : (marshalFields [(number, bytes)]).length ≤ bytes.length + 11 := by
  have hlength := Varint.length_encode_le_ten hbytes
  rw [marshalFields, List.flatMap_singleton, Varint.encode_of_lt (by dsimp only; omega),
    List.length_append, List.length_append, List.length_singleton]
  dsimp only
  omega

/-- How a field stands on the wire: one that is empty may be left out. -/
def Written (number : ℕ) (bytes : Bytes) (entries : List (ℕ × Bytes)) : Prop :=
  entries = [(number, bytes)] ∨ bytes = [] ∧ entries = []

/-- A field adds at most eleven bytes to its content. -/
theorem Written.length_le {number : ℕ} {bytes : Bytes} {entries : List (ℕ × Bytes)}
    (hwritten : Written number bytes entries) (hnumber : number < 15) (hbytes : bytes.length < 2 ^ 64) :
    (marshalFields entries).length ≤ bytes.length + 11 := by
  rcases hwritten with rfl | ⟨-, rfl⟩
  · exact length_marshalFields_singleton_le hnumber hbytes
  · exact Nat.zero_le _

/-- A message with two fields of bytes, such as a certificate or a delegation. -/
def EncodesPair (first second body : Bytes) : Prop :=
  ∃ firstEntries secondEntries, Written 1 first firstEntries ∧ Written 2 second secondEntries ∧
    body = marshalFields (firstEntries ++ secondEntries)

inductive AuthMessage.Encodes : AuthMessage Bytes → Bytes → Prop
  | clientHello {nonce inner : Bytes} {label : String}
      (hinner : EncodesPair nonce (Utf8.encode label.toList) inner) :
      Encodes (.clientHello nonce label) (marshalFields [(1, inner)])
  | serverProof {nonce mac inner : Bytes} (hinner : EncodesPair nonce mac inner) :
      Encodes (.serverProof nonce mac) (marshalFields [(2, inner)])
  | clientProof {mac : Bytes} {entries : List (ℕ × Bytes)} (hmac : Written 1 mac entries) :
      Encodes (.clientProof mac) (marshalFields [(3, marshalFields entries)])
  | unset : Encodes .unset []

/-- A certificate is written also if it is empty. Of a hello without one nothing is said. -/
inductive CertHandshakeMessage.Encodes : CertHandshakeMessage Bytes → Bytes → Prop
  | hello {cert : Cert.Envelope Bytes} {nonce body : Bytes} {entries : List (ℕ × Bytes)}
      (hcert : EncodesPair cert.content cert.signature body) (hnonce : Written 2 nonce entries) :
      Encodes (.hello (some cert) nonce) (marshalFields [(1, marshalFields ((1, body) :: entries))])
  | proof {signature : Bytes} {entries : List (ℕ × Bytes)} (hsignature : Written 1 signature entries) :
      Encodes (.proof signature) (marshalFields [(2, marshalFields entries)])

/-- Each delegation is a message of its own. -/
inductive WalletHandshakeMessage.Encodes : WalletHandshakeMessage Bytes → Bytes → Prop
  | hello {clientPubkey nonceC : Bytes} {chain : List (Wallet.Delegation Bytes)}
      {keys nonces : List (ℕ × Bytes)} {bodies : List Bytes} (hkey : Written 1 clientPubkey keys)
      (hnonce : Written 2 nonceC nonces)
      (hchain : chain.Forall₂ (fun delegation ↦ EncodesPair delegation.content delegation.signature) bodies) :
      Encodes (.hello clientPubkey nonceC chain)
        (marshalFields [(1, marshalFields (keys ++ nonces ++ bodies.map fun body ↦ (3, body)))])
  | challenge {sessionKey nonceS serverSig : Bytes} {keys nonces signatures : List (ℕ × Bytes)}
      (hkey : Written 1 sessionKey keys) (hnonce : Written 2 nonceS nonces)
      (hsignature : Written 3 serverSig signatures) :
      Encodes (.challenge sessionKey nonceS serverSig)
        (marshalFields [(2, marshalFields (keys ++ nonces ++ signatures))])
  | proof {clientSig : Bytes} {entries : List (ℕ × Bytes)} (hsignature : Written 1 clientSig entries) :
      Encodes (.proof clientSig) (marshalFields [(3, marshalFields entries)])
  | unset : Encodes .unset []

/-- The messages with keys, nonces and signatures only are far from the limit. -/
theorem length_marshalFields_le_maxMessageSize {number : ℕ} {inner : Bytes} (hnumber : number < 15)
    (hinner : inner.length ≤ 1000) : (marshalFields [(number, inner)]).length ≤ maxMessageSize := by
  have houter := length_marshalFields_singleton_le hnumber (hinner.trans_lt (by decide : 1000 < 2 ^ 64))
  have hmax : maxMessageSize = 4194304 := rfl
  omega

/-- A message with one signature in it is within the limit. -/
theorem Written.length_le_maxMessageSize {signature : Bytes} {entries : List (ℕ × Bytes)} {number : ℕ}
    (hwritten : Written 1 signature entries) (hsignature : signature.length = 64) (hnumber : number < 15) :
    (marshalFields [(number, marshalFields entries)]).length ≤ maxMessageSize := by
  have hinner := hwritten.length_le (by decide) (hsignature.trans_lt (by decide))
  exact length_marshalFields_le_maxMessageSize hnumber (by omega)

theorem CertHandshakeMessage.Encodes.length_proof_le {signature body : Bytes}
    (hencodes : CertHandshakeMessage.Encodes (.proof signature) body) (hsignature : signature.length = 64) :
    body.length ≤ maxMessageSize := by
  cases hencodes with
  | proof hwritten => exact hwritten.length_le_maxMessageSize hsignature (by decide)

theorem WalletHandshakeMessage.Encodes.length_proof_le {clientSig body : Bytes}
    (hencodes : WalletHandshakeMessage.Encodes (.proof clientSig) body) (hsignature : clientSig.length = 64) :
    body.length ≤ maxMessageSize := by
  cases hencodes with
  | proof hwritten => exact hwritten.length_le_maxMessageSize hsignature (by decide)

theorem WalletHandshakeMessage.Encodes.length_challenge_le {sessionKey nonceS serverSig body : Bytes}
    (hencodes : WalletHandshakeMessage.Encodes (.challenge sessionKey nonceS serverSig) body)
    (hkey : sessionKey.length = 32) (hnonce : nonceS.length = 32) (hsignature : serverSig.length = 64) :
    body.length ≤ maxMessageSize := by
  cases hencodes with
  | challenge hfirst hsecond hthird =>
    have hone := hfirst.length_le (by decide) (hkey.trans_lt (by decide))
    have htwo := hsecond.length_le (by decide) (hnonce.trans_lt (by decide))
    have hthree := hthird.length_le (by decide) (hsignature.trans_lt (by decide))
    apply length_marshalFields_le_maxMessageSize (by decide)
    rw [marshalFields_append, marshalFields_append, List.length_append, List.length_append]
    omega

abbrev AuthCodec := Protodelim (AuthMessage Bytes) AuthMessage.Encodes

abbrev CertCodec := Protodelim (CertHandshakeMessage Bytes) CertHandshakeMessage.Encodes

abbrev WalletCodec := Protodelim (WalletHandshakeMessage Bytes) WalletHandshakeMessage.Encodes

/-! ## The listeners -/

section Listeners

def PSKRun.outcome {Key : Type} : PSKRun Key → Option (Except AuthError Identity)
  | clientDone _ _ _ result => some result
  | serverDone _ _ _ identity => some (.ok identity)
  | failed err => some (.error err)
  | _ => none

/-- The random source answers once in a handshake. -/
def pskListener {Key : Type} (crypto : PSKCrypto Key Bytes) (rand : Except String Nonce) :
    Listener (PSKRun Key) (AuthMessage Bytes) where
  receive run read :=
    let (next, effects) := run.receive crypto ⟨read, rand, .ok (), ()⟩
    (next, effects.written)
  outcome := PSKRun.outcome

variable {Private : Type} (crypto : Ed25519 Private Bytes)

def CertRun.outcome : CertRun Private Bytes → Option (Except AuthError Identity)
  | done _ _ _ _ identity => some (.ok identity)
  | failed err => some (.error err)
  | _ => none

/-- The nonce is drawn before the first read. -/
def certListener (runtime : Cert.Runtime) (env : CertEnv) (nonce : Nonce) :
    Listener (CertRun Private Bytes) (CertHandshakeMessage Bytes) where
  receive run read :=
    let (next, effects) := run.receive crypto runtime ⟨read, .ok nonce, .ok (), env⟩
    (next, effects.written)
  outcome := CertRun.outcome

def WalletRun.outcome : WalletRun Private Bytes → Option (Except AuthError Identity)
  | serverVerified _ _ _ _ _ result => some result
  | clientDone _ _ _ _ result => some result
  | failed err => some (.error err)
  | _ => none

def walletListener (rand : Except String Nonce) (env : ResolveEnv) :
    Listener (WalletRun Private Bytes) (WalletHandshakeMessage Bytes) where
  receive run read :=
    let (next, effects) := run.receive crypto ⟨read, rand, .ok (), env⟩
    (next, effects.written)
  outcome := WalletRun.outcome

end Listeners

section PSK

variable {Key : Type} {crypto : PSKCrypto Key Bytes} {nonceC nonceS : Nonce}

theorem receive_clientHello (auth : PSKAuth Key) (label : String) :
    (pskListener crypto (.ok nonceS)).receive (.serverStart auth)
        (.ok (.clientHello nonceC.1 label)) =
      match auth.byLabel (requestedLabel label) with
      | none => (.failed (.rejected errPrefixPSK ": unknown label"), [])
      | some entry => (.serverAwait entry nonceC.1 nonceS.1,
          [.serverProof nonceS.1 (mac crypto entry.key macLabelServer nonceC.1 nonceS.1)]) := by
  have hlength : nonceC.1.length = nonceSize := nonceC.2
  simp only [pskListener, PSKRun.receive, PSKRun.sendServerProof, hlength, ne_eq, not_true_eq_false,
    if_false]
  cases auth.byLabel (requestedLabel label) <;> rfl

theorem receive_clientProof (entry : Entry Key) :
    (pskListener crypto (.ok nonceS)).receive (.serverAwait entry nonceC.1 nonceS.1)
        (.ok (.clientProof (mac crypto entry.key macLabelClient nonceS.1 nonceC.1))) =
      (.serverDone entry nonceC.1 nonceS.1 entry.identity, []) := by
  simp [pskListener, PSKRun.receive, PSKRun.finishServer, Effects.none]

end PSK

section Cert

variable {Private : Type} {crypto : Ed25519 Private Bytes} {runtime : Cert.Runtime}
  {env : CertEnv} {auth : CertAuth Private Bytes} {nonceC nonceS : Nonce}

/-- The hello of the server is written before that of the client is checked. -/
theorem receive_certHello (cert : Option (Cert.Envelope Bytes)) :
    (certListener crypto runtime env nonceS).receive (.awaitHello auth false nonceS.1)
        (.ok (.hello cert nonceC.1)) =
      (match CertRun.checkHello crypto runtime auth env cert nonceC.1 with
        | .error err => .failed err
        | .ok claim => .awaitProof auth false nonceS.1 claim
            (crypto.sign auth.localPriv (proofContent nonceC.1)),
        [.hello auth.localCert nonceS.1]) := by
  simp only [certListener, CertRun.receive, CertRun.receiveHello, CertRun.readCertHello, CertRun.writeIf,
    CertRun.outgoing, Bool.not_false, if_true]
  cases CertRun.checkHello crypto runtime auth env cert nonceC.1 <;> rfl

theorem receive_certProof (claim : Cert.Claim) (mySig signature : Bytes) :
    (certListener crypto runtime env nonceS).receive (.awaitProof auth false nonceS.1 claim mySig)
        (.ok (.proof signature)) =
      (if crypto.verify claim.peerPubKey (proofContent nonceS.1) signature then
        .done auth false nonceS.1 claim (claimToIdentity claim)
        else .failed (.rejected errPrefixCert ": peer proof signature invalid"), [.proof mySig]) := by
  simp only [certListener, CertRun.receive, CertRun.receiveProof, CertRun.readCertProof, CertRun.writeIf,
    CertRun.outgoing, Bool.not_false, if_true]
  cases crypto.verify claim.peerPubKey (proofContent nonceS.1) signature <;> rfl

end Cert

section Wallet

variable {Private : Type} {crypto : Ed25519 Private Bytes} {nonceC nonceS : Nonce}
  {env : ResolveEnv} {server : WalletServer Private} {connPub : PublicKey}
  {chain : List (Wallet.Delegation Bytes)}

def challengeFor (crypto : Ed25519 Private Bytes) (server : WalletServer Private) (nonceC nonceS : Nonce) :
    WalletHandshakeMessage Bytes :=
  .challenge (crypto.publicKey server.sessionPriv) nonceS.1 (crypto.sign server.sessionPriv
    (walletTranscript walletServerLabel nonceC.1 nonceS.1 (crypto.publicKey server.sessionPriv)))

theorem receive_walletHello (hkey : connPub.length = publicKeySize) :
    (walletListener crypto (.ok nonceS) env).receive (.serverStart server)
        (.ok (.hello connPub nonceC.1 chain)) =
      (.serverAwait server connPub nonceC.1 nonceS.1 chain, [challengeFor crypto server nonceC nonceS]) := by
  have hnonce : nonceC.1.length = walletNonceSize := nonceC.2
  simp only [walletListener, WalletRun.receive, WalletRun.sendChallenge, hkey, hnonce, ne_eq,
    not_true_eq_false, if_false]
  rfl

/-- A proof that verifies ends the exchange on the server. -/
theorem receive_walletProof {clientSig : Bytes}
    (hvalid : crypto.verify connPub (walletTranscript walletClientLabel nonceS.1 nonceC.1
      (crypto.publicKey server.sessionPriv)) clientSig = true) :
    (walletListener crypto (.ok nonceS) env).receive
        (.serverAwait server connPub nonceC.1 nonceS.1 chain) (.ok (.proof clientSig)) =
      (.serverVerified server connPub nonceC.1 nonceS.1 chain (resolveIdentity crypto server.limited
        (crypto.publicKey server.sessionPriv) env chain connPub).1, []) := by
  simp [walletListener, WalletRun.receive, WalletRun.finishServer, hvalid, Effects.none]

end Wallet

end Mosey.Auth
