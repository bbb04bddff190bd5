import Mosey.Library.Network
import Mosey.Cert
import Mosey.Auth.Handshake

/-!
# The certificate handshake

`CertAuth` is symmetric: each side sends its certificate with a fresh nonce and answers the peer's
nonce with a signature over it. The dialer writes first in both rounds. The listener reads the
peer's proof, then writes its own, and only then checks what it read. Each function below is the
code between two reads. The clock and the revocation set may change between segments, so they are
part of what the environment answers.
-/

namespace Mosey.Auth

open Library Cert

def errPrefixCert : String := "mosey/auth(cert): "

structure CertEnv where
  now : Time
  revoked : List String

inductive CertHandshakeMessage (Signature : Type)
  | hello (cert : Option (Envelope Signature)) (nonce : Bytes)
  | proof (signature : Signature)
  | unset

abbrev CertSegment (Signature : Type) := Segment (CertHandshakeMessage Signature) CertEnv

namespace CertHandshakeMessage

variable {Signature : Type}

/-- The `%T` of the message's oneof payload. -/
def kind : CertHandshakeMessage Signature → String
  | hello _ _ => "*api.CertHandshakeMessage_Hello"
  | proof _ => "*api.CertHandshakeMessage_Proof"
  | unset => "<nil>"

def tags : CertHandshakeMessage Signature → List Signature
  | hello (some cert) _ => [cert.signature]
  | proof signature => [signature]
  | _ => []

def nonces : CertHandshakeMessage Signature → List Bytes
  | hello _ nonce => [nonce]
  | _ => []

end CertHandshakeMessage

structure CertAuthOptions (Private Signature : Type) where
  localCert : Option (Envelope Signature)
  localPriv : Private
  masterPub : PublicKey
  workspaceID : String
  revoked : List String

structure CertAuth (Private Signature : Type) where
  localCert : Option (Envelope Signature)
  localPriv : Private
  masterPub : PublicKey
  workspaceID : String

def claimToIdentity (claim : Claim) : Identity :=
  ⟨claim.label, claim.hasOwner, claim.hasWrite || claim.hasOwner, claim.hasResize || claim.hasOwner⟩

/-- The bytes a peer signs to prove control of its key. -/
def proofContent (nonce : Bytes) : Bytes := ascii certProofLabel ++ nonce

/-- The content that is signed determines the nonce. -/
theorem proofContent_injective {nonce nonce' : Bytes}
    (hcontent : proofContent nonce = proofContent nonce') : nonce = nonce' :=
  List.append_cancel_left hcontent

/-- One handshake to run: the options, the time `NewCertAuth` was called and the side. -/
structure CertRole (Private Signature : Type) where
  opts : CertAuthOptions Private Signature
  builtAt : Time
  clientFirst : Bool

inductive CertRun (Private Signature : Type)
  | start (auth : CertAuth Private Signature) (clientFirst : Bool)
  | awaitHello (auth : CertAuth Private Signature) (clientFirst : Bool) (myNonce : Bytes)
  | awaitProof (auth : CertAuth Private Signature) (clientFirst : Bool) (myNonce : Bytes)
      (peerClaim : Claim) (mySig : Signature)
  | done (auth : CertAuth Private Signature) (clientFirst : Bool) (myNonce : Bytes)
      (peerClaim : Claim) (identity : Identity)
  | failed (error : AuthError)

section Handshake

variable {Private Signature : Type} (crypto : Ed25519 Private Signature) (runtime : Runtime)

def newCertAuth (opts : CertAuthOptions Private Signature) (clock : Time) :
    Except AuthError (CertAuth Private Signature) :=
  if opts.localCert.isNone then .error (.plain (errPrefixCert ++ "LocalCert required"))
  else if opts.masterPub.length ≠ publicKeySize then
    .error (.plain (errPrefixCert ++ "MasterPub length " ++ toString opts.masterPub.length ++
      ", want " ++ toString publicKeySize))
  else if opts.workspaceID = "" then .error (.plain (errPrefixCert ++ "WorkspaceID required"))
  else
    match verify crypto runtime opts.localCert
        ⟨opts.masterPub, opts.workspaceID, none, opts.revoked⟩ clock with
    | .error err => .error (.plain (errPrefixCert ++ "local cert invalid: " ++ err.text runtime))
    | .ok claim =>
      if claim.peerPubKey ≠ crypto.publicKey opts.localPriv then
        .error (.plain (errPrefixCert ++ "LocalPriv does not match LocalCert.peer_pubkey"))
      else .ok ⟨opts.localCert, opts.localPriv, opts.masterPub, opts.workspaceID⟩

namespace CertRun

abbrev Outcome (Private Signature : Type) :=
  CertRun Private Signature × Effects (CertHandshakeMessage Signature) PublicKey Bytes

def fail (error : AuthError) : Outcome Private Signature := (failed error, .none)

/-- The write of one round, which the side whose turn it is makes. -/
def writeIf (turn : Bool) (write : Except String Unit) : Except String Unit :=
  if turn then write else .ok ()

/-- The messages of that write. -/
def outgoing (turn : Bool) (message : CertHandshakeMessage Signature) :
    List (CertHandshakeMessage Signature) :=
  if turn then [message] else []

/-- `runHandshake` up to its first read. -/
def begin (auth : CertAuth Private Signature) (clientFirst : Bool) (io : CertSegment Signature) :
    Outcome Private Signature :=
  match io.rand with
  | .error err => fail (.plain (errPrefixCert ++ "nonce: " ++ err))
  | .ok myNonce =>
    let effects := ⟨outgoing clientFirst (.hello auth.localCert myNonce.1), []⟩
    match writeIf clientFirst io.write with
    | .error err => (failed (.plain (errPrefixCert ++ "send hello: " ++ err)), effects)
    | .ok _ => (awaitHello auth clientFirst myNonce.1, effects)

def readCertHello (read : Except String (CertHandshakeMessage Signature)) :
    Except AuthError (Option (Envelope Signature) × Bytes) :=
  match read with
  | .error err => .error (.plain (errPrefixCert ++ "read hello: " ++ err))
  | .ok (.hello cert nonce) => .ok (cert, nonce)
  | .ok other => .error (.rejected errPrefixCert (": expected CertHello, got " ++ other.kind))

def readCertProof (read : Except String (CertHandshakeMessage Signature)) :
    Except AuthError Signature :=
  match read with
  | .error err => .error (.plain (errPrefixCert ++ "read proof: " ++ err))
  | .ok (.proof signature) => .ok signature
  | .ok other => .error (.rejected errPrefixCert (": expected SignedNonce, got " ++ other.kind))

/-- The checks on the peer's hello. -/
def checkHello (auth : CertAuth Private Signature) (env : CertEnv)
    (peerCert : Option (Envelope Signature)) (peerNonce : Bytes) : Except AuthError Claim :=
  match verify crypto runtime peerCert ⟨auth.masterPub, auth.workspaceID, none, env.revoked⟩ env.now with
  | .error err => .error
      ⟨true, errPrefixCert ++ "peer cert: " ++ errUnauthorized ++ ": " ++ err.text runtime⟩
  | .ok peerClaim =>
    if peerNonce.length ≠ certNonceSize then
      .error (.rejected errPrefixCert (": peer nonce length " ++ toString peerNonce.length))
    else .ok peerClaim

/-- `runHandshake` from its first read to its second. -/
def receiveHello (auth : CertAuth Private Signature) (clientFirst : Bool) (myNonce : Bytes)
    (io : CertSegment Signature) : Outcome Private Signature :=
  match readCertHello io.read with
  | .error err => fail err
  | .ok (peerCert, peerNonce) =>
    let helloOut := outgoing (!clientFirst) (.hello auth.localCert myNonce)
    match writeIf (!clientFirst) io.write with
    | .error err => (failed (.plain (errPrefixCert ++ "send hello: " ++ err)), ⟨helloOut, []⟩)
    | .ok _ =>
      match checkHello crypto runtime auth io.env peerCert peerNonce with
      | .error err => (failed err, ⟨helloOut, []⟩)
      | .ok peerClaim =>
        let mySig := crypto.sign auth.localPriv (proofContent peerNonce)
        let effects := ⟨helloOut ++ outgoing clientFirst (.proof mySig),
          [(crypto.publicKey auth.localPriv, proofContent peerNonce)]⟩
        match writeIf clientFirst io.write with
        | .error err => (failed (.plain (errPrefixCert ++ "send proof: " ++ err)), effects)
        | .ok _ => (awaitProof auth clientFirst myNonce peerClaim mySig, effects)

/-- `runHandshake` from its second read to its return. -/
def receiveProof (auth : CertAuth Private Signature) (clientFirst : Bool) (myNonce : Bytes)
    (peerClaim : Claim) (mySig : Signature) (io : CertSegment Signature) :
    Outcome Private Signature :=
  match readCertProof io.read with
  | .error err => fail err
  | .ok peerProof =>
    let effects := ⟨outgoing (!clientFirst) (.proof mySig), []⟩
    match writeIf (!clientFirst) io.write with
    | .error err => (failed (.plain (errPrefixCert ++ "send proof: " ++ err)), effects)
    | .ok _ =>
      if crypto.verify peerClaim.peerPubKey (proofContent myNonce) peerProof = false then
        (failed (.rejected errPrefixCert ": peer proof signature invalid"), effects)
      else (done auth clientFirst myNonce peerClaim (claimToIdentity peerClaim), effects)

def initial (role : CertRole Private Signature) : CertRun Private Signature :=
  match newCertAuth crypto runtime role.opts role.builtAt with
  | .ok auth => start auth role.clientFirst
  | .error err => failed err

def receive : CertRun Private Signature → CertSegment Signature → Outcome Private Signature
  | start auth clientFirst, io => begin auth clientFirst io
  | awaitHello auth clientFirst myNonce, io => receiveHello crypto runtime auth clientFirst myNonce io
  | awaitProof auth clientFirst myNonce peerClaim mySig, io =>
    receiveProof crypto auth clientFirst myNonce peerClaim mySig io
  | run, _ => (run, .none)

end CertRun

namespace CertRun

theorem eq_of_mem_outgoing {turn : Bool} {message sent : CertHandshakeMessage Signature}
    (hmem : message ∈ outgoing turn sent) : message = sent := by
  unfold outgoing at hmem
  split at hmem
  · exact List.mem_singleton.mp hmem
  · cases hmem

/-- The first segment draws a nonce, and writes at most a hello with the own certificate. -/
theorem begin_cases (auth : CertAuth Private Signature) (clientFirst : Bool)
    (io : CertSegment Signature) :
    ∃ written, (∀ message ∈ written, ∃ nonce, message = .hello auth.localCert nonce) ∧
      ((∃ error, begin auth clientFirst io = (failed error, ⟨written, []⟩)) ∨
        ∃ myNonce, io.rand = .ok myNonce ∧
          begin auth clientFirst io = (awaitHello auth clientFirst myNonce.1, ⟨written, []⟩)) := by
  unfold begin
  split
  · exact ⟨[], by simp, .inl ⟨_, rfl⟩⟩
  · next myNonce hrand =>
    refine ⟨outgoing clientFirst (.hello auth.localCert myNonce.1),
      fun message hmem ↦ ⟨myNonce.1, eq_of_mem_outgoing hmem⟩, ?_⟩
    split
    · exact .inl ⟨_, rfl⟩
    · exact .inr ⟨myNonce, hrand, rfl⟩

theorem readCertHello_eq_ok {read : Except String (CertHandshakeMessage Signature)}
    {cert : Option (Envelope Signature)} {nonce : Bytes}
    (hread : readCertHello read = .ok (cert, nonce)) : read = .ok (.hello cert nonce) := by
  unfold readCertHello at hread
  split at hread
  · cases hread
  · obtain ⟨rfl, rfl⟩ := Prod.mk.inj (Except.ok.inj hread)
    rfl
  · cases hread

theorem readCertProof_eq_ok {read : Except String (CertHandshakeMessage Signature)}
    {signature : Signature} (hread : readCertProof read = .ok signature) :
    read = .ok (.proof signature) := by
  unfold readCertProof at hread
  split at hread
  · cases hread
  · rw [Except.ok.inj hread]
  · cases hread

/-- A hello passes the check only with a nonce of the right size and a valid certificate. -/
theorem checkHello_eq_ok {auth : CertAuth Private Signature} {env : CertEnv}
    {peerCert : Option (Envelope Signature)} {peerNonce : Bytes} {peerClaim : Claim}
    (hcheck : checkHello crypto runtime auth env peerCert peerNonce = .ok peerClaim) :
    peerNonce.length = certNonceSize ∧
      verify crypto runtime peerCert ⟨auth.masterPub, auth.workspaceID, none, env.revoked⟩ env.now =
        .ok peerClaim := by
  unfold checkHello at hcheck
  split at hcheck
  · cases hcheck
  · next claim hverify =>
    split_ifs at hcheck with hlength
    rw [Except.ok.inj hcheck] at hverify
    exact ⟨not_not.mp hlength, hverify⟩

theorem receiveHello_cases (auth : CertAuth Private Signature) (clientFirst : Bool)
    (myNonce : Bytes) (io : CertSegment Signature) :
    (∃ error written, (∀ message ∈ written, message = .hello auth.localCert myNonce) ∧
      receiveHello crypto runtime auth clientFirst myNonce io = (failed error, ⟨written, []⟩)) ∨
    ∃ peerCert peerNonce peerClaim next written, io.read = .ok (.hello peerCert peerNonce) ∧
      checkHello crypto runtime auth io.env peerCert peerNonce = .ok peerClaim ∧
      (∀ message ∈ written, message = .hello auth.localCert myNonce ∨
        message = .proof (crypto.sign auth.localPriv (proofContent peerNonce))) ∧
      ((∃ error, next = failed error) ∨ next = awaitProof auth clientFirst myNonce peerClaim
        (crypto.sign auth.localPriv (proofContent peerNonce))) ∧
      receiveHello crypto runtime auth clientFirst myNonce io = (next,
        ⟨written, [(crypto.publicKey auth.localPriv, proofContent peerNonce)]⟩) := by
  unfold receiveHello
  split
  · exact .inl ⟨_, [], by simp, rfl⟩
  · next peerCert peerNonce hread =>
    have hread := readCertHello_eq_ok hread
    split
    · exact .inl ⟨_, _, fun _ hmem ↦ eq_of_mem_outgoing hmem, rfl⟩
    · split
      · exact .inl ⟨_, _, fun _ hmem ↦ eq_of_mem_outgoing hmem, rfl⟩
      · next peerClaim hcheck =>
        have hwritten : ∀ message ∈ outgoing (!clientFirst) (.hello auth.localCert myNonce) ++
            outgoing clientFirst (.proof (crypto.sign auth.localPriv (proofContent peerNonce))),
            message = .hello auth.localCert myNonce ∨
              message = .proof (crypto.sign auth.localPriv (proofContent peerNonce)) :=
          fun _ hmem ↦ (List.mem_append.mp hmem).imp eq_of_mem_outgoing eq_of_mem_outgoing
        refine .inr ⟨peerCert, peerNonce, peerClaim, ?_⟩
        split
        · exact ⟨_, _, hread, hcheck, hwritten, .inl ⟨_, rfl⟩, rfl⟩
        · exact ⟨_, _, hread, hcheck, hwritten, .inr rfl, rfl⟩

/-- The last segment accepts only a proof that verifies under the key in the certificate. -/
theorem receiveProof_cases (auth : CertAuth Private Signature) (clientFirst : Bool)
    (myNonce : Bytes) (peerClaim : Claim) (mySig : Signature) (io : CertSegment Signature) :
    ∃ written, (∀ message ∈ written, message = .proof mySig) ∧
      ((∃ error, receiveProof crypto auth clientFirst myNonce peerClaim mySig io =
        (failed error, ⟨written, []⟩)) ∨
      ∃ peerProof, io.read = .ok (.proof peerProof) ∧
        crypto.verify peerClaim.peerPubKey (proofContent myNonce) peerProof = true ∧
        receiveProof crypto auth clientFirst myNonce peerClaim mySig io =
          (done auth clientFirst myNonce peerClaim (claimToIdentity peerClaim), ⟨written, []⟩)) := by
  unfold receiveProof
  split
  · exact ⟨[], by simp, .inl ⟨_, rfl⟩⟩
  · next peerProof hread =>
    refine ⟨outgoing (!clientFirst) (.proof mySig), fun _ hmem ↦ eq_of_mem_outgoing hmem, ?_⟩
    split
    · exact .inl ⟨_, rfl⟩
    · split_ifs with hverify
      · exact .inl ⟨_, rfl⟩
      · exact .inr ⟨peerProof, readCertProof_eq_ok hread, by simpa using hverify, rfl⟩

end CertRun

end Handshake

end Mosey.Auth
