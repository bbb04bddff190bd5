import Mosey.Text
import Mosey.Ed25519

/-!
# Workspace certificates

A certificate is the master's signature over a serialized claim. `verify` checks the signature
before it parses anything, then the validity window, the workspace, the revocation set and the
length of the certified key, and returns the claim.

Protobuf serialization is a parameter. Its laws are those of the wire format for a message whose
fields are numbered from 1 to 8: what was marshalled parses back, its first byte is the tag of one
of these fields, and a proof of key control is never the serialization of a claim with a key in it.
-/

namespace Mosey.Cert

open Library

def capsBitOwner : UInt32 := 1

def capsBitWrite : UInt32 := 2

def capsBitResize : UInt32 := 4

/-- What a peer signs to prove control of its key starts with this label. -/
def certProofLabel : String := "mosey-cert-v1"

def certNonceSize : ℕ := 32

structure Envelope (Signature : Type) where
  content : Bytes
  signature : Signature
  deriving DecidableEq

structure SignedCertContent where
  agentId : String
  peerPubkey : Bytes
  label : String
  capsBits : UInt32
  notBefore : Option Time
  notAfter : Option Time
  serial : String
  workspaceId : String
  deriving DecidableEq

structure Claim where
  agentID : String
  peerPubKey : PublicKey
  label : String
  capsBits : UInt32
  notBefore : Time
  notAfter : Time
  serial : String
  workspaceID : String
  deriving DecidableEq

namespace Claim

def hasOwner (claim : Claim) : Bool := claim.capsBits &&& capsBitOwner ≠ 0

def hasWrite (claim : Claim) : Bool := claim.capsBits &&& capsBitWrite ≠ 0

def hasResize (claim : Claim) : Bool := claim.capsBits &&& capsBitResize ≠ 0

def toContent (claim : Claim) : SignedCertContent :=
  ⟨claim.agentID, claim.peerPubKey, claim.label, claim.capsBits, some claim.notBefore,
    some claim.notAfter, claim.serial, claim.workspaceID⟩

end Claim

/-- What the package uses of protobuf, and the process's time zone. -/
structure Runtime where
  marshal : SignedCertContent → Except String Bytes
  unmarshal : Bytes → Except String SignedCertContent
  formatLocal : Time → String
  unmarshal_marshal : ∀ {content bytes}, marshal content = .ok bytes → unmarshal bytes = .ok content
  /-- The tags of fields 1 to 8 with their wire types. -/
  head_marshal : ∀ {content bytes}, marshal content = .ok bytes →
    ∀ first ∈ bytes.head?, first ∈ ([0x0a, 0x12, 0x1a, 0x20, 0x2a, 0x32, 0x3a, 0x42] : Bytes)
  /-- As a message, the label and the first two bytes of the nonce are three fields of four bytes;
  the thirty bytes left cannot hold a key of thirty-two. -/
  unmarshal_proof : ∀ {nonce content}, nonce.length = certNonceSize →
    unmarshal (ascii certProofLabel ++ nonce) = .ok content →
      content.peerPubkey.length ≠ publicKeySize

inductive CertError
  | missing
  | masterKeyLength (length : ℕ)
  | invalidSignature
  | unmarshal (text : String)
  | expired (now notBefore notAfter : Time)
  | wrongWorkspace (got want : String)
  | revoked (serial : String)
  | peerKeyLength (length : ℕ)
  deriving DecidableEq

def CertError.text (runtime : Runtime) : CertError → String
  | missing => "cert: nil"
  | masterKeyLength length =>
    "cert: master public key length " ++ toString length ++ ", want " ++ toString publicKeySize
  | invalidSignature => "cert: signature does not match master public key"
  | unmarshal text => "cert: unmarshal content: " ++ text
  | expired now notBefore notAfter =>
    "cert: not within validity window: now=" ++ runtime.formatLocal now ++ " not_before=" ++
      formatRFC3339 notBefore ++ " not_after=" ++ formatRFC3339 notAfter
  | wrongWorkspace got want =>
    "cert: workspace_id mismatch: got " ++ goQuote got ++ " want " ++ goQuote want
  | revoked serial => "cert: serial is revoked: " ++ serial
  | peerKeyLength length =>
    "cert: peer public key length " ++ toString length ++ ", want " ++ toString publicKeySize

structure VerifyOptions where
  masterPub : PublicKey
  workspaceID : String
  now : Option Time
  revoked : List String

variable {Private Signature : Type} (crypto : Ed25519 Private Signature) (runtime : Runtime)

def sign (masterPriv : Private) (claim : Claim) : Except String (Envelope Signature) :=
  match runtime.marshal claim.toContent with
  | .error err => .error ("cert: marshal content: " ++ err)
  | .ok payload => .ok ⟨payload, crypto.sign masterPriv payload⟩

/-- The checks of `Verify` that follow the parse. -/
def checkContent (opts : VerifyOptions) (now : Time) (content : SignedCertContent) :
    Except CertError Claim :=
  let notBefore := content.notBefore.getD 0
  let notAfter := content.notAfter.getD 0
  if now < notBefore ∨ notAfter < now then .error (.expired now notBefore notAfter)
  else if opts.workspaceID ≠ "" ∧ content.workspaceId ≠ opts.workspaceID then
    .error (.wrongWorkspace content.workspaceId opts.workspaceID)
  else if content.serial ∈ opts.revoked then .error (.revoked content.serial)
  else if content.peerPubkey.length ≠ publicKeySize then
    .error (.peerKeyLength content.peerPubkey.length)
  else .ok ⟨content.agentId, content.peerPubkey, content.label, content.capsBits, notBefore, notAfter,
    content.serial, content.workspaceId⟩

def verify (cert : Option (Envelope Signature)) (opts : VerifyOptions) (clock : Time) :
    Except CertError Claim :=
  match cert with
  | none => .error .missing
  | some envelope =>
    if opts.masterPub.length ≠ publicKeySize then .error (.masterKeyLength opts.masterPub.length)
    else if crypto.verify opts.masterPub envelope.content envelope.signature = false then
      .error .invalidSignature
    else
      match runtime.unmarshal envelope.content with
      | .error err => .error (.unmarshal err)
      | .ok content => checkContent opts (opts.now.getD clock) content

variable {crypto runtime} {opts : VerifyOptions}

/-- A content passes the checks only inside its validity, unrevoked and with a key of the right
size. -/
theorem checkContent_eq_ok {now : Time} {content : SignedCertContent} {claim : Claim}
    (hcheck : checkContent opts now content = .ok claim) :
    claim.peerPubKey = content.peerPubkey ∧ content.peerPubkey.length = publicKeySize ∧
      content.serial ∉ opts.revoked ∧ claim.notBefore ≤ now ∧ now ≤ claim.notAfter ∧
      (opts.workspaceID = "" ∨ content.workspaceId = opts.workspaceID) := by
  simp only [checkContent] at hcheck
  split_ifs at hcheck with hwindow hworkspace hrevoked hlength
  obtain rfl := Except.ok.inj hcheck
  rw [not_or, Int.not_lt, Int.not_lt] at hwindow
  rw [not_and_or, not_not, not_not] at hworkspace
  exact ⟨rfl, not_not.mp hlength, hrevoked, hwindow.1, hwindow.2, hworkspace⟩

/-- A certificate that is accepted is signed by the master key and its content passes the checks. -/
theorem verify_eq_ok {cert : Option (Envelope Signature)} {clock : Time} {claim : Claim}
    (hverify : verify crypto runtime cert opts clock = .ok claim) :
    ∃ envelope content, cert = some envelope ∧
      crypto.verify opts.masterPub envelope.content envelope.signature = true ∧
      runtime.unmarshal envelope.content = .ok content ∧
      checkContent opts (opts.now.getD clock) content = .ok claim := by
  unfold verify at hverify
  split at hverify
  · cases hverify
  · next envelope =>
    split_ifs at hverify with hmaster hsignature
    split at hverify
    · cases hverify
    · next content hcontent =>
      exact ⟨envelope, content, rfl, by simpa using hsignature, hcontent, hverify⟩

theorem sign_eq_ok {masterPriv : Private} {claim : Claim} {envelope : Envelope Signature}
    (hsign : sign crypto runtime masterPriv claim = .ok envelope) :
    runtime.marshal claim.toContent = .ok envelope.content ∧
      envelope.signature = crypto.sign masterPriv envelope.content := by
  unfold sign at hsign
  split at hsign
  · cases hsign
  · next payload hmarshal =>
    obtain rfl := Except.ok.inj hsign
    exact ⟨hmarshal, rfl⟩

/-- The claim that a check returns is the one the content was made from. -/
theorem checkContent_toContent {now : Time} {claim claim' : Claim}
    (hcheck : checkContent opts now claim.toContent = .ok claim') : claim' = claim := by
  simp only [checkContent] at hcheck
  split_ifs at hcheck
  exact (Except.ok.inj hcheck).symm

/-- What a proof signs is never the encoding of a content. -/
theorem proof_ne_marshal {content : SignedCertContent} {bytes nonce : Bytes}
    (hmarshal : runtime.marshal content = .ok bytes) :
    bytes ≠ ascii certProofLabel ++ nonce := by
  rintro rfl
  have hfirst := runtime.head_marshal hmarshal 0x6d (by rfl)
  exact absurd hfirst (by decide)

end Mosey.Cert
