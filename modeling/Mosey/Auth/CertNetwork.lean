import Mosey.Auth.Cert

/-!
# Who a certificate handshake authenticates

Any number of handshakes run concurrently on both sides. The adversary knows every certificate the
master issued, controls every message and holds no certified key. Both sides sign the same bytes for
a nonce, the label and the nonce, so a listener's answer to a nonce is as good as a dialer's. An
accepted proof therefore comes from a dialer as long as no listener is handed a nonce that a
listener issued; without that condition a host can be made to answer its own challenge.
-/

namespace Mosey.Auth

open Library Cert

section Network

variable {Private Signature : Type} (crypto : IdealEd25519 Private Signature) (runtime : Runtime)

/-- The master key of a workspace and the claims it has signed. -/
structure Workspace (Private : Type) where
  masterPriv : Private
  issued : Claim → Prop

abbrev CertSession (Private Signature : Type) :=
  Session (CertRole Private Signature) (CertSegment Signature)

abbrev CertWorld (Private Signature : Type) := List (CertSession Private Signature)

def certNetwork (workspace : Workspace Private) (corrupt : PublicKey → Prop) :
    Network (CertRole Private Signature) (CertRun Private Signature) (CertSegment Signature)
      (CertHandshakeMessage Signature) PublicKey Bytes Bytes Signature where
  initial := CertRun.initial crypto.toEd25519 runtime
  receive := CertRun.receive crypto.toEd25519 runtime
  scheme := crypto.tagScheme
  corrupt := corrupt
  known signature := ∃ claim envelope, workspace.issued claim ∧
    sign crypto.toEd25519 runtime workspace.masterPriv claim = .ok envelope ∧
    envelope.signature = signature
  draws := Segment.draws
  hears io := match io.read with
    | .ok message => message.nonces
    | .error _ => []
  presents io := match io.read with
    | .ok message => message.tags
    | .error _ => []
  holds role := (CertHandshakeMessage.hello role.opts.localCert []).tags
  carries := CertHandshakeMessage.tags

/-- The first segment of the handshake drew `nonce`, which is the nonce it sends. -/
def Issued (inputs : List (CertSegment Signature)) (nonce : Bytes) : Prop :=
  ∃ io, inputs[0]? = some io ∧ nonce ∈ io.draws

instance (inputs : List (CertSegment Signature)) (nonce : Bytes) : Decidable (Issued inputs nonce) :=
  match inputs with
  | [] => .isFalse fun ⟨_, hfirst, _⟩ ↦ nomatch hfirst
  | io :: _ => decidable_of_iff (nonce ∈ io.draws) (by simp [Issued])

def Configured (role : CertRole Private Signature) (auth : CertAuth Private Signature) : Prop :=
  auth.localCert = role.opts.localCert ∧ auth.localPriv = role.opts.localPriv ∧
    auth.masterPub = role.opts.masterPub

/-- The handshake read a hello with a certificate that verifies to `claim`. -/
def CertAccepted (role : CertRole Private Signature) (inputs : List (CertSegment Signature))
    (claim : Claim) : Prop :=
  ∃ cert nonce opts clock, ReadAt inputs 1 (.hello cert nonce) ∧
    opts.masterPub = role.opts.masterPub ∧
    verify crypto.toEd25519 runtime cert opts clock = .ok claim

/-- What the state of a session says about its role and its inputs. -/
def CertState (role : CertRole Private Signature) (inputs : List (CertSegment Signature)) :
    CertRun Private Signature → Prop
  | .start auth clientFirst => inputs = [] ∧ Configured role auth ∧ clientFirst = role.clientFirst
  | .awaitHello auth clientFirst myNonce => inputs.length = 1 ∧ Configured role auth ∧
      clientFirst = role.clientFirst ∧ Issued inputs myNonce
  | .awaitProof auth clientFirst myNonce peerClaim _ => inputs.length = 2 ∧ Configured role auth ∧
      clientFirst = role.clientFirst ∧ Issued inputs myNonce ∧
      CertAccepted crypto runtime role inputs peerClaim
  | .done auth clientFirst myNonce peerClaim identity => Configured role auth ∧
      clientFirst = role.clientFirst ∧ Issued inputs myNonce ∧
      CertAccepted crypto runtime role inputs peerClaim ∧ identity = claimToIdentity peerClaim ∧
      ∃ signature, ReadAt inputs 2 (.proof signature) ∧
        crypto.verify peerClaim.peerPubKey (proofContent myNonce) signature = true
  | .failed _ => True

/-- The session answered a nonce it had read in a hello. -/
def Answered (role : CertRole Private Signature) (inputs : List (CertSegment Signature))
    (signed : PublicKey × Bytes) : Prop :=
  ∃ cert nonce, signed = (crypto.publicKey role.opts.localPriv, proofContent nonce) ∧
    nonce.length = certNonceSize ∧ ReadAt inputs 1 (.hello cert nonce)

/-- What holds of a session after any inputs. -/
structure CertLocal (role : CertRole Private Signature) (inputs : List (CertSegment Signature))
    (run : CertRun Private Signature)
    (effects : Effects (CertHandshakeMessage Signature) PublicKey Bytes) : Prop where
  state : CertState crypto runtime role inputs run
  signed : ∀ signed ∈ effects.signed, Answered crypto role inputs signed

variable {crypto runtime} {role : CertRole Private Signature}
variable {inputs : List (CertSegment Signature)} {run : CertRun Private Signature}
variable {effects : Effects (CertHandshakeMessage Signature) PublicKey Bytes}

variable {nonce : Bytes} {io : CertSegment Signature} {session : CertSession Private Signature}

theorem Issued.concat (hissued : Issued inputs nonce) (io : CertSegment Signature) :
    Issued (inputs ++ [io]) nonce := by
  obtain ⟨first, hfirst, hnonce⟩ := hissued
  exact ⟨first, getElem?_append_of_eq_some hfirst _, hnonce⟩

theorem CertAccepted.concat {claim : Claim} (haccepted : CertAccepted crypto runtime role inputs claim)
    (io : CertSegment Signature) : CertAccepted crypto runtime role (inputs ++ [io]) claim := by
  obtain ⟨cert, nonce, opts, clock, hread, hmaster, hverify⟩ := haccepted
  exact ⟨cert, nonce, opts, clock, hread.concat io, hmaster, hverify⟩

theorem Answered.concat {signed : PublicKey × Bytes} (hanswered : Answered crypto role inputs signed)
    (io : CertSegment Signature) : Answered crypto role (inputs ++ [io]) signed := by
  obtain ⟨cert, nonce, hsigned, hlength, hread⟩ := hanswered
  exact ⟨cert, nonce, hsigned, hlength, hread.concat io⟩

/-- A step that signs nothing. -/
theorem CertLocal.quiet (hlocal : CertLocal crypto runtime role inputs run effects)
    {next : CertRun Private Signature} {written : List (CertHandshakeMessage Signature)}
    (hstate : CertState crypto runtime role (inputs ++ [io]) next) :
    CertLocal crypto runtime role (inputs ++ [io]) next (effects.append ⟨written, []⟩) where
  state := hstate
  signed signed hmem := by
    rw [Effects.append_signed, List.append_nil] at hmem
    exact (hlocal.signed signed hmem).concat io

/-- What one segment of a session preserves. -/
theorem CertLocal.receive (hlocal : CertLocal crypto runtime role inputs run effects)
    (io : CertSegment Signature) :
    CertLocal crypto runtime role (inputs ++ [io])
      (CertRun.receive crypto.toEd25519 runtime run io).1
      (effects.append (CertRun.receive crypto.toEd25519 runtime run io).2) := by
  cases run with
  | start auth clientFirst =>
    obtain ⟨hinputs, hconfigured, hside⟩ := hlocal.state
    obtain ⟨written, _, ⟨error, heq⟩ | ⟨myNonce, hrand, heq⟩⟩ :=
      CertRun.begin_cases auth clientFirst io
    · rw [CertRun.receive, heq]
      exact hlocal.quiet trivial
    · rw [CertRun.receive, heq]
      exact hlocal.quiet ⟨by simp [hinputs], hconfigured, hside,
        io, by simp [hinputs], Segment.mem_draws hrand⟩
  | awaitHello auth clientFirst myNonce =>
    obtain ⟨hlength, hconfigured, hside, hissued⟩ := hlocal.state
    rcases CertRun.receiveHello_cases crypto.toEd25519 runtime auth clientFirst myNonce io with
      ⟨error, written, _, heq⟩ |
        ⟨cert, nonce, claim, next, written, hread, hcheck, _, hnext, heq⟩
    · rw [CertRun.receive, heq]
      exact hlocal.quiet trivial
    · rw [CertRun.receive, heq]
      obtain ⟨hnonce, hverify⟩ := CertRun.checkHello_eq_ok crypto.toEd25519 runtime hcheck
      have hheard : ReadAt (inputs ++ [io]) 1 (.hello cert nonce) := .last hlength hread
      refine ⟨?_, ?_⟩
      · rcases hnext with ⟨error, rfl⟩ | rfl
        · trivial
        · exact ⟨by simp [hlength], hconfigured, hside, hissued.concat io, cert, nonce, _, _, hheard,
            hconfigured.2.2, hverify⟩
      · intro signed hsigned
        rcases List.mem_append.mp hsigned with hold | hnew
        · exact (hlocal.signed signed hold).concat io
        · rw [List.mem_singleton, hconfigured.2.1] at hnew
          exact ⟨cert, nonce, hnew, hnonce, hheard⟩
  | awaitProof auth clientFirst myNonce peerClaim mySig =>
    obtain ⟨hlength, hconfigured, hside, hissued, haccepted⟩ := hlocal.state
    obtain ⟨written, _, ⟨error, heq⟩ | ⟨proof, hread, hverify, heq⟩⟩ :=
      CertRun.receiveProof_cases crypto.toEd25519 auth clientFirst myNonce peerClaim mySig io
    · rw [CertRun.receive, heq]
      exact hlocal.quiet trivial
    · rw [CertRun.receive, heq]
      exact hlocal.quiet ⟨hconfigured, hside, hissued.concat io, haccepted.concat io, rfl, proof,
        .last hlength hread, hverify⟩
  | done auth clientFirst myNonce peerClaim identity =>
    obtain ⟨hconfigured, hside, hissued, haccepted, hidentity, proof, hread, hverify⟩ := hlocal.state
    exact hlocal.quiet ⟨hconfigured, hside, hissued.concat io, haccepted.concat io, hidentity,
      proof, hread.concat io, hverify⟩
  | failed error => exact hlocal.quiet trivial

/-- A configuration that is accepted is kept as it was given. -/
theorem newCertAuth_eq_ok {opts : CertAuthOptions Private Signature} {clock : Time}
    {auth : CertAuth Private Signature}
    (hauth : newCertAuth crypto.toEd25519 runtime opts clock = .ok auth) :
    auth = ⟨opts.localCert, opts.localPriv, opts.masterPub, opts.workspaceID⟩ := by
  unfold newCertAuth at hauth
  split_ifs at hauth
  split at hauth
  · cases hauth
  · split_ifs at hauth
    exact (Except.ok.inj hauth).symm

variable (crypto runtime) (workspace : Workspace Private) (corrupt : PublicKey → Prop)

/-- What a session has read and drawn explains its state and everything it has signed. -/
theorem certLocal (session : CertSession Private Signature) :
    CertLocal crypto runtime session.role session.inputs
      ((certNetwork crypto runtime workspace corrupt).state session)
      ((certNetwork crypto runtime workspace corrupt).exec session).2 := by
  refine (certNetwork crypto runtime workspace corrupt).exec_invariant session.role
    (P := CertLocal crypto runtime session.role) ?_
    (fun inputs io run effects hlocal ↦ hlocal.receive io) session.inputs
  refine ⟨?_, by simp⟩
  change CertState crypto runtime session.role []
    (CertRun.initial crypto.toEd25519 runtime session.role)
  unfold CertRun.initial
  split
  · next auth hauth =>
    obtain rfl := newCertAuth_eq_ok hauth
    exact ⟨rfl, ⟨rfl, rfl, rfl⟩, rfl⟩
  · trivial

def CertRun.listenerAwaits : CertRun Private Signature → Bool
  | .awaitHello _ clientFirst _ => !clientFirst
  | _ => false

/-- The signatures a session can write: its certificate's, and its own proof once it has one. -/
def CertRun.Owned : CertRun Private Signature → Signature → Prop
  | .start auth _, signature => signature ∈ (CertHandshakeMessage.hello auth.localCert []).tags
  | .awaitHello auth _ _, signature =>
    signature ∈ (CertHandshakeMessage.hello auth.localCert []).tags
  | .awaitProof _ _ _ _ mySig, signature => signature = mySig
  | .done _ _ _ _ _, _ => False
  | .failed _, _ => False

theorem tags_hello (cert : Option (Envelope Signature)) (nonce nonce' : Bytes) :
    (CertHandshakeMessage.hello cert nonce).tags = (CertHandshakeMessage.hello cert nonce').tags := by
  cases cert <;> rfl

/-- A session starts with no signatures but those of its own certificate. -/
theorem certNetwork_owned_initial (role : CertRole Private Signature) (signature : Signature)
    (howned : ((certNetwork crypto runtime workspace corrupt).initial role).Owned signature) :
    signature ∈ (certNetwork crypto runtime workspace corrupt).holds role := by
  change CertRun.Owned (CertRun.initial crypto.toEd25519 runtime role) signature at howned
  unfold CertRun.initial at howned
  split at howned
  · next auth hauth =>
    obtain rfl := newCertAuth_eq_ok hauth
    exact howned
  · exact howned.elim

/-- A proof that a session signs is among what it has signed. -/
theorem certNetwork_backed_proof (auth : CertAuth Private Signature) (nonce : Bytes) :
    (certNetwork crypto runtime workspace corrupt).Backed
      [(crypto.publicKey auth.localPriv, proofContent nonce)]
      (crypto.sign auth.localPriv (proofContent nonce)) :=
  ⟨_, List.mem_singleton_self _, crypto.verify_sign _ _⟩

theorem certNetwork_owned_receive (run : CertRun Private Signature) (io : CertSegment Signature)
    (signature : Signature)
    (howned : (CertRun.receive crypto.toEd25519 runtime run io).1.Owned signature) :
    run.Owned signature ∨ (certNetwork crypto runtime workspace corrupt).Backed
      (CertRun.receive crypto.toEd25519 runtime run io).2.signed signature := by
  cases run with
  | start auth clientFirst =>
    obtain ⟨written, _, ⟨error, heq⟩ | ⟨myNonce, _, heq⟩⟩ :=
      CertRun.begin_cases auth clientFirst io
    · rw [CertRun.receive, heq] at howned
      exact howned.elim
    · rw [CertRun.receive, heq] at howned
      exact .inl howned
  | awaitHello auth clientFirst myNonce =>
    rcases CertRun.receiveHello_cases crypto.toEd25519 runtime auth clientFirst myNonce io with
      ⟨error, written, _, heq⟩ | ⟨cert, nonce, claim, next, written, _, _, _, hnext, heq⟩
    · rw [CertRun.receive, heq] at howned
      exact howned.elim
    · rw [CertRun.receive, heq] at howned ⊢
      rcases hnext with ⟨error, rfl⟩ | rfl
      · exact howned.elim
      · obtain rfl : signature = _ := howned
        exact .inr (certNetwork_backed_proof crypto runtime workspace corrupt auth nonce)
  | awaitProof auth clientFirst myNonce peerClaim mySig =>
    obtain ⟨written, _, ⟨error, heq⟩ | ⟨proof, _, _, heq⟩⟩ :=
      CertRun.receiveProof_cases crypto.toEd25519 auth clientFirst myNonce peerClaim mySig io
    · rw [CertRun.receive, heq] at howned
      exact howned.elim
    · rw [CertRun.receive, heq] at howned
      exact howned.elim
  | done | failed => exact .inl howned

theorem certNetwork_owned_written (run : CertRun Private Signature) (io : CertSegment Signature)
    {message : CertHandshakeMessage Signature}
    (hmessage : message ∈ (CertRun.receive crypto.toEd25519 runtime run io).2.written)
    (signature : Signature) (hsignature : signature ∈ message.tags) :
    run.Owned signature ∨ (certNetwork crypto runtime workspace corrupt).Backed
      (CertRun.receive crypto.toEd25519 runtime run io).2.signed signature := by
  cases run with
  | start auth clientFirst =>
    obtain ⟨written, hwritten, ⟨error, heq⟩ | ⟨myNonce, _, heq⟩⟩ :=
      CertRun.begin_cases auth clientFirst io
    all_goals
      rw [CertRun.receive, heq] at hmessage
      obtain ⟨nonce, rfl⟩ := hwritten message hmessage
      rw [tags_hello _ nonce []] at hsignature
      exact .inl hsignature
  | awaitHello auth clientFirst myNonce =>
    rcases CertRun.receiveHello_cases crypto.toEd25519 runtime auth clientFirst myNonce io with
      ⟨error, written, hwritten, heq⟩ | ⟨cert, nonce, claim, next, written, _, _, hwritten, _, heq⟩
    · rw [CertRun.receive, heq] at hmessage
      rw [hwritten message hmessage, tags_hello _ _ []] at hsignature
      exact .inl hsignature
    · rw [CertRun.receive, heq] at hmessage ⊢
      rcases hwritten message hmessage with rfl | rfl
      · rw [tags_hello _ _ []] at hsignature
        exact .inl hsignature
      · obtain rfl := List.mem_singleton.mp hsignature
        exact .inr (certNetwork_backed_proof crypto runtime workspace corrupt auth nonce)
  | awaitProof auth clientFirst myNonce peerClaim mySig =>
    obtain ⟨written, hwritten, ⟨error, heq⟩ | ⟨proof, _, _, heq⟩⟩ :=
      CertRun.receiveProof_cases crypto.toEd25519 auth clientFirst myNonce peerClaim mySig io
    all_goals
      rw [CertRun.receive, heq] at hmessage
      rw [hwritten message hmessage] at hsignature
      exact .inl (List.mem_singleton.mp hsignature)
  | done | failed => cases hmessage

/-- Every signature that a session can send was held, made or read by it. -/
theorem certNetwork_traceable : (certNetwork crypto runtime workspace corrupt).Traceable := by
  apply Network.traceable_of_receive CertRun.Owned
  · exact certNetwork_owned_initial crypto runtime workspace corrupt
  · exact certNetwork_owned_receive crypto runtime workspace corrupt
  · intro run io message hmessage
    exact certNetwork_owned_written crypto runtime workspace corrupt run io hmessage

/-! ## Authentication -/

/-- The adversary holds neither the master key nor a certified key. -/
structure Workspace.Secure : Prop where
  master : ¬ corrupt (crypto.publicKey workspace.masterPriv)
  certified : ∀ claim, workspace.issued claim → ¬ corrupt claim.peerPubKey

/-- No listener that awaits a hello is handed a nonce that a listener issued. -/
def NoEcho (world : CertWorld Private Signature) :
    NetworkAction (CertRole Private Signature) (CertSegment Signature) → Prop
  | .spawn _ => True
  | .feed index io => ∀ session ∈ world[index]?,
      ((certNetwork crypto runtime workspace corrupt).state session).listenerAwaits = true →
        ∀ nonce ∈ (certNetwork crypto runtime workspace corrupt).hears io,
          ∀ other ∈ world, other.role.clientFirst = false → ¬ Issued other.inputs nonce

instance (world : CertWorld Private Signature) :
    (action : NetworkAction (CertRole Private Signature) (CertSegment Signature)) →
      Decidable (NoEcho crypto runtime workspace corrupt world action)
  | .spawn _ => .isTrue trivial
  | .feed index _ => inferInstanceAs (Decidable (∀ session ∈ world[index]?, _ → ∀ nonce ∈ _, _))

/-- Session `index` is a `ServerHandshake` that drew `nonce` and returned the identity of `claim`,
a certificate of the workspace. -/
def ListenerReturned (world : CertWorld Private Signature) (index : ℕ) (claim : Claim)
    (nonce : Bytes) : Prop :=
  ∃ session auth, world[index]? = some session ∧ session.role.clientFirst = false ∧
    session.role.opts.masterPub = crypto.publicKey workspace.masterPriv ∧
    (certNetwork crypto runtime workspace corrupt).state session =
      .done auth false nonce claim (claimToIdentity claim)

/-- A `ClientHandshake` of the holder of `key` signed `nonce`. -/
def DialerSigned (world : CertWorld Private Signature) (key : PublicKey) (nonce : Bytes) : Prop :=
  ∃ session ∈ world, session.role.clientFirst = true ∧
    crypto.publicKey session.role.opts.localPriv = key ∧
    (key, proofContent nonce) ∈ (certNetwork crypto runtime workspace corrupt).signed session

variable {crypto runtime workspace corrupt} {world : CertWorld Private Signature}

theorem mem_presents {message : CertHandshakeMessage Signature} (hread : io.read = .ok message)
    {signature : Signature} (hmem : signature ∈ message.tags) :
    signature ∈ (certNetwork crypto runtime workspace corrupt).presents io := by
  change signature ∈ match io.read with
    | .ok message => message.tags
    | .error _ => []
  rw [hread]
  exact hmem

theorem mem_hears {cert : Option (Envelope Signature)} (hread : io.read = .ok (.hello cert nonce)) :
    nonce ∈ (certNetwork crypto runtime workspace corrupt).hears io := by
  change nonce ∈ match io.read with
    | .ok message => message.nonces
    | .error _ => []
  rw [hread]
  exact List.mem_singleton_self _

/-- A certificate accepted under the workspace's master key is one the master issued. -/
theorem CertAccepted.issued
    (hreach : (certNetwork crypto runtime workspace corrupt).machine.Reachable world)
    (hsecure : workspace.Secure crypto corrupt) (hmem : session ∈ world)
    (hmaster : session.role.opts.masterPub = crypto.publicKey workspace.masterPriv) {claim : Claim}
    (haccepted : CertAccepted crypto runtime session.role session.inputs claim) :
    workspace.issued claim := by
  obtain ⟨cert, nonce, opts, clock, ⟨io, hio, hread⟩, hopts, hverify⟩ := haccepted
  obtain ⟨envelope, content, rfl, hsignature, hcontent, hcheck⟩ := verify_eq_ok hverify
  rw [hopts, hmaster] at hsignature
  rcases Network.authentic (certNetwork_traceable crypto runtime workspace corrupt) hreach hmem
    (List.mem_of_getElem? hio) (mem_presents hread (List.mem_singleton_self _)) hsignature
    hsecure.master with ⟨issued, original, hissued, hsign, hsame⟩ | ⟨signer, _, hsigned⟩
  · obtain ⟨hmarshal, hsig⟩ := sign_eq_ok hsign
    have horiginal := crypto.verify_sign workspace.masterPriv original.content
    rw [← hsig, hsame] at horiginal
    obtain ⟨_, hsameContent⟩ := crypto.verify_unique hsignature horiginal
    rw [hsameContent, runtime.unmarshal_marshal hmarshal] at hcontent
    rw [← Except.ok.inj hcontent] at hcheck
    rw [checkContent_toContent hcheck]
    exact hissued
  · obtain ⟨_, answered, hanswered, hlength, _⟩ :=
      (certLocal crypto runtime workspace corrupt signer).signed _ hsigned
    rw [(Prod.mk.inj hanswered).2] at hcontent
    exact absurd (checkContent_eq_ok hcheck).2.1 (runtime.unmarshal_proof hlength hcontent)

/-- A segment signs only the nonce of the hello it reads while it awaits one. -/
theorem receive_signed {signed : PublicKey × Bytes}
    (hsigned : signed ∈ (CertRun.receive crypto.toEd25519 runtime run io).2.signed) :
    ∃ auth clientFirst myNonce cert nonce, run = .awaitHello auth clientFirst myNonce ∧
      io.read = .ok (.hello cert nonce) ∧ signed.2 = proofContent nonce := by
  cases run with
  | start auth clientFirst =>
    obtain ⟨written, _, ⟨error, heq⟩ | ⟨myNonce, _, heq⟩⟩ := CertRun.begin_cases auth clientFirst io
    all_goals
      rw [CertRun.receive, heq] at hsigned
      cases hsigned
  | awaitHello auth clientFirst myNonce =>
    rcases CertRun.receiveHello_cases crypto.toEd25519 runtime auth clientFirst myNonce io with
      ⟨error, written, _, heq⟩ | ⟨cert, nonce, claim, next, written, hread, _, _, _, heq⟩
    · rw [CertRun.receive, heq] at hsigned
      cases hsigned
    · rw [CertRun.receive, heq] at hsigned
      exact ⟨auth, clientFirst, myNonce, cert, nonce, rfl, hread,
        congrArg Prod.snd (List.mem_singleton.mp hsigned)⟩
  | awaitProof auth clientFirst myNonce peerClaim mySig =>
    obtain ⟨written, _, ⟨error, heq⟩ | ⟨proof, _, _, heq⟩⟩ :=
      CertRun.receiveProof_cases crypto.toEd25519 auth clientFirst myNonce peerClaim mySig io
    all_goals
      rw [CertRun.receive, heq] at hsigned
      cases hsigned
  | done | failed => cases hsigned

theorem Issued.of_concat (hissued : Issued (inputs ++ [io]) nonce) :
    Issued inputs nonce ∨ (inputs = [] ∧ nonce ∈ io.draws) := by
  obtain ⟨first, hfirst, hnonce⟩ := hissued
  cases inputs with
  | nil =>
    obtain rfl : io = first := by simpa using hfirst
    exact .inr ⟨rfl, hnonce⟩
  | cons head rest => exact .inl ⟨first, by simpa using hfirst, hnonce⟩

/-- A listener's answer in the next world was given before, or is given now to the hello it reads. -/
theorem answered_of_step {action : NetworkAction (CertRole Private Signature) (CertSegment Signature)}
    (hmem : session ∈ Network.step world action) {key : PublicKey}
    (hsigned : (key, proofContent nonce) ∈
      (certNetwork crypto runtime workspace corrupt).signed session) :
    (∃ before ∈ world, before.role = session.role ∧
      (key, proofContent nonce) ∈ (certNetwork crypto runtime workspace corrupt).signed before) ∨
    ∃ index io before auth clientFirst myNonce cert, action = .feed index io ∧
      world[index]? = some before ∧ before.role = session.role ∧
      (certNetwork crypto runtime workspace corrupt).state before =
        .awaitHello auth clientFirst myNonce ∧ io.read = .ok (.hello cert nonce) := by
  rcases Network.mem_step hmem with hold | ⟨role, rfl, rfl⟩ | ⟨index, io, before, rfl, hbefore, rfl⟩
  · exact .inl ⟨session, hold, rfl, hsigned⟩
  · cases hsigned
  · rw [Network.extend, Protocol.signed_concat] at hsigned
    rcases List.mem_append.mp hsigned with hearlier | hnow
    · exact .inl ⟨before, List.mem_of_getElem? hbefore, rfl, hearlier⟩
    · obtain ⟨auth, clientFirst, myNonce, cert, heard, hrun, hread, hcontent⟩ := receive_signed hnow
      obtain rfl := proofContent_injective hcontent
      exact .inr ⟨index, io, before, auth, clientFirst, myNonce, cert, rfl, hbefore, rfl, hrun, hread⟩

/-- A nonce issued in the next world was issued before, or is drawn now by a session's first segment. -/
theorem issued_of_step {action : NetworkAction (CertRole Private Signature) (CertSegment Signature)}
    (hmem : session ∈ Network.step world action) (hissued : Issued session.inputs nonce) :
    (∃ before ∈ world, before.role = session.role ∧ Issued before.inputs nonce) ∨
    ∃ index io before, action = .feed index io ∧ world[index]? = some before ∧
      before.inputs = [] ∧ nonce ∈ io.draws := by
  rcases Network.mem_step hmem with hold | ⟨role, rfl, rfl⟩ | ⟨index, io, before, rfl, hbefore, rfl⟩
  · exact .inl ⟨session, hold, rfl, hissued⟩
  · obtain ⟨_, hfirst, _⟩ := hissued
    cases hfirst
  · rcases hissued.of_concat with hearlier | ⟨hempty, hnonce⟩
    · exact .inl ⟨before, List.mem_of_getElem? hbefore, rfl, hearlier⟩
    · exact .inr ⟨index, io, before, rfl, hbefore, hempty, hnonce⟩

/-- The invariant of a run without echoes: no listener has answered a listener's nonce. -/
theorem listener_not_answered
    (hreach : ((certNetwork crypto runtime workspace corrupt).machine.restrict
      (NoEcho crypto runtime workspace corrupt)).Reachable world) :
    ∀ answerer ∈ world, answerer.role.clientFirst = false →
      ∀ issuer ∈ world, issuer.role.clientFirst = false → ∀ key nonce,
        (key, proofContent nonce) ∈ (certNetwork crypto runtime workspace corrupt).signed answerer →
          ¬ Issued issuer.inputs nonce := by
  refine hreach.invariant (P := fun world ↦ ∀ answerer ∈ world, answerer.role.clientFirst = false →
    ∀ issuer ∈ world, issuer.role.clientFirst = false → ∀ key nonce,
      (key, proofContent nonce) ∈ (certNetwork crypto runtime workspace corrupt).signed answerer →
        ¬ Issued issuer.inputs nonce) ?_ ?_
  · intro answerer hmem
    cases hmem
  intro world action _ ih hallowed answerer hanswerer hside issuer hissuer hside' key nonce hsigned
    hissued
  change answerer ∈ Network.step world action at hanswerer
  change issuer ∈ Network.step world action at hissuer
  rcases answered_of_step hanswerer hsigned with ⟨before, hbefore, hrole, hsigned⟩ |
    ⟨index, io, before, auth, clientFirst, myNonce, cert, rfl, hbefore, hrole, hrun, hread⟩
  · rcases issued_of_step hissuer hissued with ⟨before', hbefore', hrole', hissued⟩ |
      ⟨index, io, before', rfl, _, _, hdrawn⟩
    · exact ih before hbefore (hrole ▸ hside) before' hbefore' (hrole' ▸ hside') key nonce hsigned
        hissued
    · obtain ⟨_, answered, hanswered, _, heard, hheard, hread⟩ :=
        (certLocal crypto runtime workspace corrupt before).signed _ hsigned
      obtain rfl := proofContent_injective (Prod.mk.inj hanswered).2
      exact (hallowed.1.1 nonce hdrawn before hbefore heard (List.mem_of_getElem? hheard)).2
        (mem_hears hread)
  · have hstate := (certLocal crypto runtime workspace corrupt before).state
    rw [hrun] at hstate
    obtain ⟨hlength, _, rfl, _⟩ := hstate
    rcases issued_of_step hissuer hissued with ⟨before', hbefore', hrole', hissued⟩ |
      ⟨index', io', before', haction, hbefore', hempty, _⟩
    · refine hallowed.2 before hbefore ?_ nonce (mem_hears hread) before' hbefore'
        (hrole' ▸ hside') hissued
      rw [hrun, hrole, hside]
      rfl
    · obtain ⟨rfl, rfl⟩ : index = index' ∧ io = io' := by
        injection haction with hindex hio
        exact ⟨hindex, hio⟩
      obtain rfl : before = before' := Option.some.inj (hbefore.symm.trans hbefore')
      rw [hempty] at hlength
      cases hlength

/-- In every run without echoes, a listener that returns a certificate's identity was answered by a
dialer that holds the certified key. -/
theorem listener_authenticates_dialer (hsecure : workspace.Secure crypto corrupt)
    (hreach : ((certNetwork crypto runtime workspace corrupt).machine.restrict
      (NoEcho crypto runtime workspace corrupt)).Reachable world)
    {listener : ℕ} {claim : Claim} {nonce : Bytes}
    (hreturned : ListenerReturned crypto runtime workspace corrupt world listener claim nonce) :
    workspace.issued claim ∧
      DialerSigned crypto runtime workspace corrupt world claim.peerPubKey nonce := by
  obtain ⟨session, auth, hlistener, hside, hmaster, hstate⟩ := hreturned
  have hmem := List.mem_of_getElem? hlistener
  have hlocal := (certLocal crypto runtime workspace corrupt session).state
  rw [hstate] at hlocal
  obtain ⟨_, _, hissuedNonce, haccepted, _, signature, ⟨io, hio, hread⟩, hverify⟩ := hlocal
  have hissued := haccepted.issued hreach.of_restrict hsecure hmem hmaster
  refine ⟨hissued, ?_⟩
  rcases Network.authentic (certNetwork_traceable crypto runtime workspace corrupt)
    hreach.of_restrict hmem (List.mem_of_getElem? hio)
    (mem_presents hread (List.mem_singleton_self _)) hverify (hsecure.certified claim hissued) with
    ⟨_, original, _, hsign, hsame⟩ | ⟨signer, hsignerMem, hsigned⟩
  · obtain ⟨hmarshal, hsig⟩ := sign_eq_ok hsign
    have horiginal := crypto.verify_sign workspace.masterPriv original.content
    rw [← hsig, hsame] at horiginal
    exact absurd (crypto.verify_unique hverify horiginal).2.symm (proof_ne_marshal hmarshal)
  · obtain ⟨_, answered, hanswered, _, _⟩ :=
      (certLocal crypto runtime workspace corrupt signer).signed _ hsigned
    have hkey : crypto.publicKey signer.role.opts.localPriv = claim.peerPubKey :=
      (Prod.mk.inj hanswered).1.symm
    refine ⟨signer, hsignerMem, ?_, hkey, hsigned⟩
    by_contra hnotDialer
    exact listener_not_answered hreach signer hsignerMem (by simpa using hnotDialer) session hmem
      hside _ _ hsigned hissuedNonce

end Network

section Example

abbrev Key32 := { key : PublicKey // key.length = publicKeySize }

def masterKey : Key32 := ⟨List.replicate 32 9, by decide⟩

def hostKey : Key32 := ⟨List.replicate 32 7, by decide⟩

def agentKey : Key32 := ⟨List.replicate 32 8, by decide⟩

/-- A claim with owner caps and a validity window of a thousand seconds. -/
def exampleClaim (name : String) (key : Key32) : Claim :=
  ⟨name, key.1, name, capsBitOwner, 0, 1000 * nanosPerSecond, name, "w"⟩

/-- The wire form of `exampleClaim` for names of fewer than 128 bytes. -/
def exampleBytes (name : String) (key : Key32) : Bytes :=
  let text := UInt8.ofNat name.length :: ascii name
  [0x0a] ++ text ++ [0x12, 0x20] ++ key.1 ++ [0x1a] ++ text ++ [0x20, 0x01, 0x2a, 0x00, 0x32, 0x03,
    0x08, 0xe8, 0x07, 0x3a] ++ text ++ [0x42, 0x01, 0x77]

def hostClaim : Claim := exampleClaim "host" hostKey

def agentClaim : Claim := exampleClaim "agent" agentKey

def exampleUnmarshal (bytes : Bytes) : Except String SignedCertContent :=
  if bytes = exampleBytes "host" hostKey then .ok hostClaim.toContent
  else if bytes = exampleBytes "agent" agentKey then .ok agentClaim.toContent
  else .error "proto: not one of the two certificates"

theorem proof_not_example (name : String) (key : Key32) (nonce : Bytes) :
    ascii certProofLabel ++ nonce ≠ exampleBytes name key := by
  intro heq
  have hhead : some (0x6d : UInt8) = some 0x0a := congrArg List.head? heq
  exact absurd hhead (by decide)

/-- Protobuf on the two certificates of the example. -/
def exampleRuntime : Runtime where
  marshal content :=
    if content = hostClaim.toContent then .ok (exampleBytes "host" hostKey)
    else if content = agentClaim.toContent then .ok (exampleBytes "agent" agentKey)
    else .error "proto: not one of the two certificates"
  unmarshal := exampleUnmarshal
  formatLocal := formatRFC3339
  unmarshal_marshal := by
    intro content bytes hmarshal
    split_ifs at hmarshal with hhost hagent
    · rw [← Except.ok.inj hmarshal, hhost]
      decide
    · rw [← Except.ok.inj hmarshal, hagent]
      decide
  head_marshal := by
    intro content bytes hmarshal first hfirst
    split_ifs at hmarshal
    all_goals
      rw [← Except.ok.inj hmarshal] at hfirst
      obtain rfl : (0x0a : UInt8) = first := Option.some.inj hfirst
      decide
  unmarshal_proof := by
    intro nonce content _ hunmarshal
    rw [exampleUnmarshal, if_neg (proof_not_example _ _ _), if_neg (proof_not_example _ _ _)]
      at hunmarshal
    cases hunmarshal

def exampleCert (name : String) (key : Key32) : Envelope (FreeTag PublicKey Bytes) :=
  ⟨exampleBytes name key, .tagged masterKey.1 (exampleBytes name key)⟩

def exampleWorkspace : Workspace Key32 := ⟨masterKey, fun claim ↦ claim = hostClaim ∨ claim = agentClaim⟩

theorem exampleWorkspace_secure : exampleWorkspace.Secure freeEd25519 (fun _ ↦ False) := by
  exact ⟨id, fun _ _ ↦ id⟩

abbrev exampleNetwork := certNetwork freeEd25519 exampleRuntime exampleWorkspace fun _ ↦ False

instance : DecidablePred exampleNetwork.known := fun signature ↦
  decidable_of_iff (signature = (exampleCert "host" hostKey).signature ∨
      signature = (exampleCert "agent" agentKey).signature) <| by
    constructor
    · rintro (rfl | rfl)
      · exact ⟨hostClaim, exampleCert "host" hostKey, .inl rfl, by decide, rfl⟩
      · exact ⟨agentClaim, exampleCert "agent" agentKey, .inr rfl, by decide, rfl⟩
    · rintro ⟨claim, envelope, rfl | rfl, hsign, rfl⟩
      · exact .inl (congrArg Envelope.signature (Except.ok.inj (hsign.symm.trans (by decide))))
      · exact .inr (congrArg Envelope.signature (Except.ok.inj (hsign.symm.trans (by decide))))

def exampleRole (name : String) (key : Key32) (clientFirst : Bool) :
    CertRole Key32 (FreeTag PublicKey Bytes) :=
  ⟨⟨some (exampleCert name key), key, masterKey.1, "w", []⟩, nanosPerSecond, clientFirst⟩

def exampleNonce (byte : UInt8) : Nonce := ⟨List.replicate 32 byte, by simp⟩

def drawStep (byte : UInt8) : CertSegment (FreeTag PublicKey Bytes) :=
  ⟨.error "", .ok (exampleNonce byte), .ok (), nanosPerSecond, []⟩

def helloStep (name : String) (key : Key32) (nonce : Nonce) : CertSegment (FreeTag PublicKey Bytes) :=
  ⟨.ok (.hello (some (exampleCert name key)) nonce.1), .error "", .ok (), nanosPerSecond, []⟩

def proofStep (signature : FreeTag PublicKey Bytes) : CertSegment (FreeTag PublicKey Bytes) :=
  ⟨.ok (.proof signature), .error "", .ok (), nanosPerSecond, []⟩

def replayed (actions : List (NetworkAction (CertRole Key32 (FreeTag PublicKey Bytes))
    (CertSegment (FreeTag PublicKey Bytes)))) : CertWorld Key32 (FreeTag PublicKey Bytes) :=
  exampleNetwork.machine.run [] actions

/-- The agent dials the host and every message is delivered. -/
def agentDialsHost : List (NetworkAction (CertRole Key32 (FreeTag PublicKey Bytes))
    (CertSegment (FreeTag PublicKey Bytes))) :=
  [.spawn (exampleRole "host" hostKey false), .spawn (exampleRole "agent" agentKey true),
    .feed 0 (drawStep 1), .feed 1 (drawStep 2), .feed 0 (helloStep "agent" agentKey (exampleNonce 2)),
    .feed 1 (helloStep "host" hostKey (exampleNonce 1)),
    .feed 0 (proofStep (.tagged agentKey.1 (proofContent (exampleNonce 1).1)))]

theorem junk_forged : ∀ signature, signature = FreeTag.junk → ∀ key content,
    exampleNetwork.scheme.valid key content signature → exampleNetwork.corrupt key := by
  rintro _ rfl key content hvalid
  change decide (FreeTag.junk = FreeTag.tagged key content) = true at hvalid
  simp at hvalid

theorem agentDialsHost_reachable :
    (exampleNetwork.machine.restrict (NoEcho freeEd25519 exampleRuntime exampleWorkspace
      fun _ ↦ False)).Reachable (replayed agentDialsHost) := by
  refine Machine.Reachable.init.run (Machine.legal_restrict _ ?_ ?_)
  · exact Network.legal_of_replay (· = .junk) junk_forged (by decide)
  · decide

theorem agentDialsHost_returned :
    ListenerReturned freeEd25519 exampleRuntime exampleWorkspace (fun _ ↦ False)
      (replayed agentDialsHost) 0 agentClaim (exampleNonce 1).1 :=
  ⟨_, ⟨some (exampleCert "host" hostKey), hostKey, masterKey.1, "w"⟩, rfl, rfl, rfl, rfl⟩

/-- The host returned the agent's identity, and the agent's dial is found. -/
theorem listener_authenticates_agent :
    ListenerReturned freeEd25519 exampleRuntime exampleWorkspace (fun _ ↦ False)
        (replayed agentDialsHost) 0 agentClaim (exampleNonce 1).1 ∧
      DialerSigned freeEd25519 exampleRuntime exampleWorkspace (fun _ ↦ False)
        (replayed agentDialsHost) agentKey.1 (exampleNonce 1).1 :=
  ⟨agentDialsHost_returned, (listener_authenticates_dialer exampleWorkspace_secure
    agentDialsHost_reachable agentDialsHost_returned).2⟩

/-- Two auth streams to one host: the nonce the host issues on the first is sent to it on the
second, and the proof it returns there is sent back on the first. -/
def hostEcho : List (NetworkAction (CertRole Key32 (FreeTag PublicKey Bytes))
    (CertSegment (FreeTag PublicKey Bytes))) :=
  [.spawn (exampleRole "host" hostKey false), .spawn (exampleRole "host" hostKey false),
    .feed 0 (drawStep 1), .feed 1 (drawStep 2), .feed 0 (helloStep "host" hostKey (exampleNonce 3)),
    .feed 1 (helloStep "host" hostKey (exampleNonce 1)), .feed 1 (proofStep .junk),
    .feed 0 (proofStep (.tagged hostKey.1 (proofContent (exampleNonce 1).1)))]

theorem hostEcho_listeners : ∀ session ∈ replayed hostEcho, session.role.clientFirst = false := by
  decide

/-- The host returned its own identity although no dial was ever made. -/
theorem host_authenticates_echo :
    exampleWorkspace.Secure freeEd25519 (fun _ ↦ False) ∧
      exampleNetwork.machine.Reachable (replayed hostEcho) ∧
      ListenerReturned freeEd25519 exampleRuntime exampleWorkspace (fun _ ↦ False)
        (replayed hostEcho) 0 hostClaim (exampleNonce 1).1 ∧
      ¬ DialerSigned freeEd25519 exampleRuntime exampleWorkspace (fun _ ↦ False)
        (replayed hostEcho) hostKey.1 (exampleNonce 1).1 := by
  refine ⟨exampleWorkspace_secure,
    Network.reachable_of_replay (· = .junk) junk_forged (by decide),
    ⟨_, ⟨some (exampleCert "host" hostKey), hostKey, masterKey.1, "w"⟩, rfl, rfl, rfl, rfl⟩, ?_⟩
  rintro ⟨session, hmem, hdialer, _⟩
  rw [hostEcho_listeners session hmem] at hdialer
  cases hdialer

end Example

end Mosey.Auth
