import Mosey.Auth.WalletPolicy

/-!
# Agreement of the wallet handshake

Any number of session hosts, dialers and delegating wallets run concurrently, and the adversary
controls every message and holds the corrupt keys. What the honest parties sign falls into three
kinds: server transcripts, client transcripts and delegation texts. The two labels have one length
and differ, the header of a delegation differs from both at its sixth byte, and the lengths of the
nonces are checked, so a signature under an uncorrupted key identifies its kind, its session and
both nonces.
-/

namespace Mosey.Auth

open Library Wallet

theorem walletLabel_length : (ascii walletServerLabel).length = (ascii walletClientLabel).length := by
  decide

variable {label : String}

/-- With lengths fixed, a transcript determines the nonces and the session. -/
theorem walletTranscript_injective {nonceA nonceB sessionID : Bytes}
    {nonceA' nonceB' sessionID' : Bytes} (hlengthA : nonceA.length = nonceA'.length)
    (hlengthB : nonceB.length = nonceB'.length) (heq : walletTranscript label nonceA nonceB sessionID =
      walletTranscript label nonceA' nonceB' sessionID') :
    nonceA = nonceA' ∧ nonceB = nonceB' ∧ sessionID = sessionID' := by
  simp only [walletTranscript, List.append_assoc] at heq
  have hrest := List.append_inj (List.append_cancel_left heq) hlengthA
  exact ⟨hrest.1, List.append_inj hrest.2 hlengthB⟩

/-- The two directions of the handshake never sign the same text. -/
theorem walletTranscript_disjoint (nonceA nonceB sessionID nonceA' nonceB' sessionID' : Bytes) :
    walletTranscript walletServerLabel nonceA nonceB sessionID ≠
      walletTranscript walletClientLabel nonceA' nonceB' sessionID' := by
  intro heq
  simp only [walletTranscript, List.append_assoc] at heq
  have hlabels := (List.append_inj heq walletLabel_length).1
  exact absurd hlabels (by decide)

theorem take_render (fields : Fields) : fields.render.take 6 = ascii "mosey " := by
  have hheader : ∀ rest, (ascii contentHeader ++ rest).take 6 = ascii "mosey " := by
    intro rest
    have hlength : 6 ≤ (ascii contentHeader).length := by decide
    rw [List.take_append_of_le_length hlength]
    decide
  exact hheader _

theorem take_walletTranscript (hlength : 6 ≤ (ascii label).length) (nonceA nonceB sessionID : Bytes) :
    (walletTranscript label nonceA nonceB sessionID).take 6 = (ascii label).take 6 := by
  simp only [walletTranscript, List.append_assoc]
  exact List.take_append_of_le_length hlength

/-- No delegation text is a transcript of the handshake. -/
theorem render_ne_walletTranscript (hlabel : label = walletServerLabel ∨ label = walletClientLabel)
    (fields : Fields) (nonceA nonceB sessionID : Bytes) :
    fields.render ≠ walletTranscript label nonceA nonceB sessionID := by
  have hlength : 6 ≤ (ascii label).length := by
    rcases hlabel with rfl | rfl <;> decide
  have hdistinct : ascii "mosey " ≠ (ascii label).take 6 := by
    rcases hlabel with rfl | rfl <;> decide
  intro heq
  apply hdistinct
  calc
    ascii "mosey " = fields.render.take 6 := (take_render fields).symm
    _ = (walletTranscript label nonceA nonceB sessionID).take 6 := by rw [heq]
    _ = (ascii label).take 6 := take_walletTranscript hlength nonceA nonceB sessionID

/-! ## The network -/

section Network

variable {Private Signature : Type} (crypto : IdealEd25519 Private Signature)
variable (corrupt : PublicKey → Prop)

abbrev WalletSession (Private Signature : Type) :=
  Session (WalletRole Private Signature) (WalletSegment Signature)

abbrev WalletWorld (Private Signature : Type) := List (WalletSession Private Signature)

abbrev WalletEffects (Signature : Type) := Effects (WalletHandshakeMessage Signature) PublicKey Bytes

def walletNetwork : Network (WalletRole Private Signature) (WalletRun Private Signature)
    (WalletSegment Signature) (WalletHandshakeMessage Signature) PublicKey Bytes Bytes Signature where
  initial := WalletRun.initial
  receive := WalletRun.receive crypto.toEd25519
  scheme := crypto.tagScheme
  corrupt := corrupt
  known _ := False
  draws := Segment.draws
  hears io := match io.read with
    | .ok message => message.nonces
    | .error _ => []
  presents io := match io.read with
    | .ok message => message.tags
    | .error _ => []
  holds
    | .client opts => opts.chain.map Delegation.signature
    | _ => []
  carries := WalletHandshakeMessage.tags

/-- A server that has answered the hello of `connPub` with a challenge. -/
structure WalletChallenged (role : WalletRole Private Signature)
    (inputs : List (WalletSegment Signature)) (effects : WalletEffects Signature)
    (server : WalletServer Private) (connPub nonceC nonceS : Bytes)
    (chain : List (Delegation Signature)) : Prop where
  configured : role = .server server
  heard : ReadAt inputs 0 (.hello connPub nonceC chain)
  length : nonceC.length = walletNonceSize
  drawn : Drawn inputs nonceS
  sent : .challenge (crypto.publicKey server.sessionPriv) nonceS
    (crypto.sign server.sessionPriv (walletTranscript walletServerLabel nonceC nonceS
      (crypto.publicKey server.sessionPriv))) ∈ effects.written

/-- A server that has verified the client's proof and resolved the chain. -/
def ProofAccepted (inputs : List (WalletSegment Signature)) (server : WalletServer Private)
    (connPub nonceC nonceS : Bytes) (chain : List (Delegation Signature))
    (result : Except AuthError Identity) : Prop :=
  ∃ io clientSig, inputs[1]? = some io ∧ io.read = .ok (.proof clientSig) ∧
    crypto.verify connPub (walletTranscript walletClientLabel nonceS nonceC
      (crypto.publicKey server.sessionPriv)) clientSig = true ∧
    result = (resolveIdentity crypto.toEd25519 server.limited (crypto.publicKey server.sessionPriv)
      io.env chain connPub).1

/-- A client that has verified the server's challenge against its expectation. -/
structure ChallengeAccepted (inputs : List (WalletSegment Signature))
    (client : WalletClient Private Signature) (nonceC nonceS sessionKey : Bytes) : Prop where
  drawn : Drawn inputs nonceC
  length : nonceS.length = walletNonceSize
  expected : WalletRun.expectationMet client sessionKey = true
  heard : ∃ serverSig, ReadAt inputs 1 (.challenge sessionKey nonceS serverSig) ∧
    crypto.verify sessionKey (walletTranscript walletServerLabel nonceC nonceS sessionKey)
      serverSig = true

/-- What the state of a session says about its role, its inputs and its effects. -/
def WalletState (role : WalletRole Private Signature) (inputs : List (WalletSegment Signature))
    (effects : WalletEffects Signature) : WalletRun Private Signature → Prop
  | .serverStart server => inputs = [] ∧ role = .server server
  | .serverAwait server connPub nonceC nonceS chain => inputs.length = 1 ∧
      WalletChallenged crypto role inputs effects server connPub nonceC nonceS chain
  | .serverVerified server connPub nonceC nonceS chain result =>
    WalletChallenged crypto role inputs effects server connPub nonceC nonceS chain ∧
      ProofAccepted crypto inputs server connPub nonceC nonceS chain result
  | .clientStart client => inputs = [] ∧ role = .client client ∧ effects.signed = []
  | .clientAwait client nonceC => inputs.length = 1 ∧ role = .client client ∧ Drawn inputs nonceC ∧
      effects.signed = []
  | .clientDone client nonceC nonceS sessionKey _ => role = .client client ∧
      ChallengeAccepted crypto inputs client nonceC nonceS sessionKey
  | .delegatorStart priv fields => role = .delegator priv fields
  | .delegatorDone => True
  | .failed _ => True

/-- What a session may have signed. -/
inductive WalletSigned (role : WalletRole Private Signature) (inputs : List (WalletSegment Signature))
    (effects : WalletEffects Signature) (run : WalletRun Private Signature) :
    PublicKey × Bytes → Prop
  | client {client : WalletClient Private Signature} {nonceC nonceS sessionKey : Bytes}
      {result : Except AuthError Identity}
      (hrun : run = .clientDone client nonceC nonceS sessionKey result) :
      WalletSigned role inputs effects run (crypto.publicKey client.connPriv,
        walletTranscript walletClientLabel nonceS nonceC sessionKey)
  | server {server : WalletServer Private} {connPub nonceC nonceS : Bytes}
      {chain : List (Delegation Signature)}
      (hchallenged : WalletChallenged crypto role inputs effects server connPub nonceC nonceS chain) :
      WalletSigned role inputs effects run (crypto.publicKey server.sessionPriv,
        walletTranscript walletServerLabel nonceC nonceS (crypto.publicKey server.sessionPriv))
  | delegator {priv : Private} {fields : Fields} (hrole : role = .delegator priv fields) :
      WalletSigned role inputs effects run (crypto.publicKey priv, fields.render)

/-- What holds of a session after any inputs. -/
structure WalletLocal (role : WalletRole Private Signature) (inputs : List (WalletSegment Signature))
    (run : WalletRun Private Signature) (effects : WalletEffects Signature) : Prop where
  state : WalletState crypto role inputs effects run
  signed : ∀ entry ∈ effects.signed, WalletSigned crypto role inputs effects run entry

variable {crypto} {role : WalletRole Private Signature} {inputs : List (WalletSegment Signature)}
variable {run next : WalletRun Private Signature} {effects extra : WalletEffects Signature}
variable {io : WalletSegment Signature} {server : WalletServer Private}
variable {client : WalletClient Private Signature} {connPub nonceC nonceS sessionKey : Bytes}
variable {chain : List (Delegation Signature)} {result : Except AuthError Identity}

theorem WalletChallenged.concat
    (hchallenged : WalletChallenged crypto role inputs effects server connPub nonceC nonceS chain)
    (io : WalletSegment Signature) :
    WalletChallenged crypto role (inputs ++ [io]) (effects.append extra) server connPub nonceC nonceS
      chain where
  configured := hchallenged.configured
  heard := hchallenged.heard.concat io
  length := hchallenged.length
  drawn := hchallenged.drawn.concat io
  sent := List.mem_append_left _ hchallenged.sent

theorem ProofAccepted.concat
    (haccepted : ProofAccepted crypto inputs server connPub nonceC nonceS chain result)
    (io : WalletSegment Signature) :
    ProofAccepted crypto (inputs ++ [io]) server connPub nonceC nonceS chain result := by
  obtain ⟨second, clientSig, hsecond, hrest⟩ := haccepted
  exact ⟨second, clientSig, getElem?_append_of_eq_some hsecond _, hrest⟩

theorem ChallengeAccepted.concat
    (haccepted : ChallengeAccepted crypto inputs client nonceC nonceS sessionKey)
    (io : WalletSegment Signature) :
    ChallengeAccepted crypto (inputs ++ [io]) client nonceC nonceS sessionKey where
  drawn := haccepted.drawn.concat io
  length := haccepted.length
  expected := haccepted.expected
  heard := haccepted.heard.imp fun _ hheard ↦ ⟨hheard.1.concat io, hheard.2⟩

theorem WalletSigned.concat {entry : PublicKey × Bytes}
    (hsigned : WalletSigned crypto role inputs effects run entry) (io : WalletSegment Signature)
    (hrun : ∀ client nonceC nonceS sessionKey result,
      run = .clientDone client nonceC nonceS sessionKey result → next = run) :
    WalletSigned crypto role (inputs ++ [io]) (effects.append extra) next entry := by
  cases hsigned with
  | client hdone => exact .client ((hrun _ _ _ _ _ hdone).trans hdone)
  | server hchallenged => exact .server (hchallenged.concat io)
  | delegator hrole => exact .delegator hrole

/-- A step that signs nothing. -/
theorem WalletLocal.quiet (hlocal : WalletLocal crypto role inputs run effects)
    {written : List (WalletHandshakeMessage Signature)}
    (hstate : WalletState crypto role (inputs ++ [io]) (effects.append ⟨written, []⟩) next)
    (hrun : ∀ client nonceC nonceS sessionKey result,
      run = .clientDone client nonceC nonceS sessionKey result → next = run) :
    WalletLocal crypto role (inputs ++ [io]) next (effects.append ⟨written, []⟩) where
  state := hstate
  signed entry hentry := by
    rw [Effects.append_signed, List.append_nil] at hentry
    exact (hlocal.signed entry hentry).concat io hrun

/-- What one segment of a session preserves. -/
theorem WalletLocal.receive (hlocal : WalletLocal crypto role inputs run effects)
    (io : WalletSegment Signature) :
    WalletLocal crypto role (inputs ++ [io]) (WalletRun.receive crypto.toEd25519 run io).1
      (effects.append (WalletRun.receive crypto.toEd25519 run io).2) := by
  cases run with
  | serverStart server =>
    have hstate := hlocal.state
    rcases WalletRun.sendChallenge_cases crypto.toEd25519 server io with ⟨error, heq⟩ |
      ⟨connPub, nonceC, chain, nonceS, next, extra, hread, _, hnonceC, hrand, hnext, hwritten,
        hsigned, heq⟩
    · rw [WalletRun.receive, heq]
      exact hlocal.quiet trivial (by simp)
    · rw [WalletRun.receive, heq]
      have hchallenged : WalletChallenged crypto role (inputs ++ [io]) (effects.append extra) server
          connPub nonceC nonceS.1 chain :=
        ⟨hstate.2, .last (by simp [hstate.1]) hread, hnonceC, .last hrand,
          List.mem_append_right _ (by simp [hwritten])⟩
      refine ⟨?_, ?_⟩
      · rcases hnext with ⟨error, rfl⟩ | rfl
        · trivial
        · exact ⟨by simp [hstate.1], hchallenged⟩
      · intro entry hentry
        rcases List.mem_append.mp hentry with hold | hnew
        · exact (hlocal.signed entry hold).concat io (by simp)
        · rw [hsigned] at hnew
          rw [List.mem_singleton.mp hnew]
          exact .server hchallenged
  | serverAwait server connPub nonceC nonceS chain =>
    have hstate := hlocal.state
    rcases WalletRun.finishServer_cases crypto.toEd25519 server connPub nonceC nonceS chain io with
      ⟨error, heq⟩ | ⟨clientSig, hread, hproof, heq⟩
    · rw [WalletRun.receive, heq]
      exact hlocal.quiet trivial (by simp)
    · rw [WalletRun.receive, heq]
      have hsecond : (inputs ++ [io])[1]? = some io := by
        rw [← hstate.1, List.getElem?_concat_length]
      exact hlocal.quiet
        ⟨hstate.2.concat io, io, clientSig, hsecond, hread, hproof, rfl⟩ (by simp)
  | clientStart client =>
    have hstate := hlocal.state
    obtain ⟨written, _, ⟨error, heq⟩ | ⟨nonceC, hrand, heq⟩⟩ :=
      WalletRun.sendHello_cases crypto.toEd25519 client io
    · rw [WalletRun.receive, heq]
      exact hlocal.quiet trivial (by simp)
    · rw [WalletRun.receive, heq]
      refine hlocal.quiet ⟨by simp [hstate.1], hstate.2.1, .last hrand, ?_⟩ (by simp)
      rw [Effects.append_signed, hstate.2.2, List.nil_append]
  | clientAwait client nonceC =>
    have hstate := hlocal.state
    rcases WalletRun.finishClient_cases crypto.toEd25519 client nonceC io with ⟨error, heq⟩ |
      ⟨sessionKey, nonceS, serverSig, result, hread, _, hnonceS, hproof, hexpected, heq⟩
    · rw [WalletRun.receive, heq]
      exact hlocal.quiet trivial (by simp)
    · rw [WalletRun.receive, heq]
      refine ⟨⟨hstate.2.1, hstate.2.2.1.concat io, hnonceS, hexpected, serverSig,
        .last hstate.1 hread, hproof⟩, ?_⟩
      intro entry hentry
      rw [Effects.append_signed, hstate.2.2.2, List.nil_append, List.mem_singleton] at hentry
      rw [hentry]
      exact .client rfl
  | delegatorStart priv fields =>
    refine ⟨trivial, ?_⟩
    intro entry hentry
    rcases List.mem_append.mp hentry with hold | hnew
    · exact (hlocal.signed entry hold).concat io (by simp)
    · rw [List.mem_singleton.mp hnew]
      exact .delegator hlocal.state
  | serverVerified server connPub nonceC nonceS chain result =>
    have hstate := hlocal.state
    exact hlocal.quiet ⟨hstate.1.concat io, hstate.2.concat io⟩ (fun _ _ _ _ _ _ ↦ rfl)
  | clientDone client nonceC nonceS sessionKey result =>
    have hstate := hlocal.state
    exact hlocal.quiet ⟨hstate.1, hstate.2.concat io⟩ (fun _ _ _ _ _ _ ↦ rfl)
  | delegatorDone | failed => exact hlocal.quiet trivial (fun _ _ _ _ _ _ ↦ rfl)

variable (crypto)

/-- What a session has read and drawn explains its state and everything it has signed. -/
theorem walletLocal (session : WalletSession Private Signature) :
    WalletLocal crypto session.role session.inputs ((walletNetwork crypto corrupt).state session)
      ((walletNetwork crypto corrupt).exec session).2 := by
  refine (walletNetwork crypto corrupt).exec_invariant session.role
    (P := WalletLocal crypto session.role) ?_
    (fun inputs io run effects hlocal ↦ hlocal.receive io) session.inputs
  refine ⟨?_, by simp⟩
  change WalletState crypto session.role [] Effects.none (WalletRun.initial session.role)
  cases hrole : session.role with
  | server server => exact ⟨rfl, rfl⟩
  | client opts =>
    rw [WalletRun.initial, newWalletClientAuth]
    split_ifs
    · trivial
    · exact ⟨rfl, rfl, rfl⟩
  | delegator priv fields => rfl

/-- The signatures a session can write before it signs anything: those of its chain. -/
def WalletRun.Owned : WalletRun Private Signature → Signature → Prop
  | .clientStart client, signature => signature ∈ client.chain.map Delegation.signature
  | _, _ => False

variable {crypto corrupt}

theorem walletNetwork_owned_initial (role : WalletRole Private Signature) (signature : Signature)
    (howned : (WalletRun.initial role).Owned signature) :
    signature ∈ (walletNetwork crypto corrupt).holds role := by
  cases role with
  | server server => exact howned.elim
  | client opts =>
    rw [WalletRun.initial, newWalletClientAuth] at howned
    split_ifs at howned
    · exact howned.elim
    · exact howned
  | delegator priv fields => exact howned.elim

/-- No segment leads to the start of a client. -/
theorem WalletRun.not_owned_receive (run : WalletRun Private Signature)
    (io : WalletSegment Signature) (signature : Signature) :
    ¬ (WalletRun.receive crypto.toEd25519 run io).1.Owned signature := by
  intro howned
  cases run with
  | serverStart server =>
    rcases sendChallenge_cases crypto.toEd25519 server io with ⟨error, heq⟩ |
      ⟨_, _, _, _, next, _, _, _, _, _, ⟨error, rfl⟩ | rfl, _, _, heq⟩
    all_goals
      rw [receive, heq] at howned
      exact howned
  | serverAwait server connPub nonceC nonceS chain =>
    rcases finishServer_cases crypto.toEd25519 server connPub nonceC nonceS chain io with
      ⟨error, heq⟩ | ⟨_, _, _, heq⟩
    all_goals
      rw [receive, heq] at howned
      exact howned
  | clientStart client =>
    obtain ⟨written, _, ⟨error, heq⟩ | ⟨nonceC, _, heq⟩⟩ :=
      sendHello_cases crypto.toEd25519 client io
    all_goals
      rw [receive, heq] at howned
      exact howned
  | clientAwait client nonceC =>
    rcases finishClient_cases crypto.toEd25519 client nonceC io with ⟨error, heq⟩ |
      ⟨_, _, _, _, _, _, _, _, _, heq⟩
    all_goals
      rw [receive, heq] at howned
      exact howned
  | delegatorStart | serverVerified | clientDone | delegatorDone | failed => exact howned

/-- Every signature that a session can send was held, made or read by it. -/
theorem walletNetwork_traceable : (walletNetwork crypto corrupt).Traceable := by
  apply Network.traceable_of_receive WalletRun.Owned walletNetwork_owned_initial
  · intro run io signature howned
    exact absurd howned (WalletRun.not_owned_receive run io signature)
  intro run io message hmessage signature htag
  change run.Owned signature ∨ ∃ entry ∈ (WalletRun.receive crypto.toEd25519 run io).2.signed,
    crypto.verify entry.1 entry.2 signature = true
  change message ∈ (WalletRun.receive crypto.toEd25519 run io).2.written at hmessage
  change signature ∈ message.tags at htag
  cases run with
  | serverStart server =>
    rcases WalletRun.sendChallenge_cases crypto.toEd25519 server io with ⟨error, heq⟩ |
      ⟨_, _, _, _, next, extra, _, _, _, _, _, hwritten, hsigned, heq⟩
    · rw [WalletRun.receive, heq] at hmessage
      cases hmessage
    · rw [WalletRun.receive, heq] at hmessage ⊢
      rw [hwritten, List.mem_singleton] at hmessage
      rw [hmessage, WalletHandshakeMessage.tags, List.mem_singleton] at htag
      rw [hsigned, htag]
      exact .inr ⟨_, List.mem_singleton_self _, crypto.verify_sign _ _⟩
  | serverAwait server connPub nonceC nonceS chain =>
    rcases WalletRun.finishServer_cases crypto.toEd25519 server connPub nonceC nonceS chain io with
      ⟨error, heq⟩ | ⟨_, _, _, heq⟩
    all_goals
      rw [WalletRun.receive, heq] at hmessage
      cases hmessage
  | clientStart client =>
    obtain ⟨written, htags, ⟨error, heq⟩ | ⟨nonceC, _, heq⟩⟩ :=
      WalletRun.sendHello_cases crypto.toEd25519 client io
    all_goals
      rw [WalletRun.receive, heq] at hmessage
      rw [htags message hmessage] at htag
      exact .inl htag
  | clientAwait client nonceC =>
    rcases WalletRun.finishClient_cases crypto.toEd25519 client nonceC io with ⟨error, heq⟩ |
      ⟨_, _, _, _, _, _, _, _, _, heq⟩
    · rw [WalletRun.receive, heq] at hmessage
      cases hmessage
    · rw [WalletRun.receive, heq] at hmessage ⊢
      rw [List.mem_singleton.mp hmessage, WalletHandshakeMessage.tags, List.mem_singleton] at htag
      rw [htag]
      exact .inr ⟨_, List.mem_singleton_self _, crypto.verify_sign _ _⟩
  | delegatorStart priv fields =>
    rw [List.mem_singleton.mp hmessage, WalletHandshakeMessage.tags, List.mem_singleton] at htag
    rw [htag]
    exact .inr ⟨_, List.mem_singleton_self _, crypto.verify_sign _ _⟩
  | serverVerified | clientDone | delegatorDone | failed => cases hmessage

/-! ## Agreement -/

variable {signature : Signature}

/-- A signature read by a session and valid for an uncorrupted key was made by a session. -/
theorem walletSigned_of_read {world : WalletWorld Private Signature}
    (hreach : (walletNetwork crypto corrupt).machine.Reachable world)
    {session : WalletSession Private Signature} (hmem : session ∈ world) {position : ℕ}
    {message : WalletHandshakeMessage Signature} (hread : ReadAt session.inputs position message)
    (htag : signature ∈ message.tags) {key content : Bytes}
    (hvalid : crypto.verify key content signature = true) (hkey : ¬ corrupt key) :
    ∃ (index : ℕ) (signer : WalletSession Private Signature), world[index]? = some signer ∧
      WalletSigned crypto signer.role signer.inputs ((walletNetwork crypto corrupt).exec signer).2
        ((walletNetwork crypto corrupt).state signer) (key, content) := by
  obtain ⟨io, hio, hmessage⟩ := hread
  have hpresented : signature ∈ (walletNetwork crypto corrupt).presents io := by
    change signature ∈ match io.read with
      | .ok message => message.tags
      | .error _ => []
    rw [hmessage]
    exact htag
  have hauthentic := Network.authentic walletNetwork_traceable hreach hmem
    (List.mem_of_getElem? hio) hpresented hvalid hkey
  obtain ⟨signer, hsigner, hsigned⟩ := hauthentic.resolve_left id
  obtain ⟨index, hindex⟩ := List.mem_iff_getElem?.mp hsigner
  exact ⟨index, signer, hindex, (walletLocal crypto corrupt signer).signed _ hsigned⟩

variable (crypto corrupt) (world : WalletWorld Private Signature)

/-- Session `index` is a `ServerHandshake` of `sessionKey` that passed the proof check for `connPub`. -/
def ServerAccepted (index : ℕ) (sessionKey connPub nonceC nonceS : Bytes) : Prop :=
  ∃ session server chain result, world[index]? = some session ∧
    crypto.publicKey server.sessionPriv = sessionKey ∧
    (walletNetwork crypto corrupt).state session =
      .serverVerified server connPub nonceC nonceS chain result

/-- Session `index` is a `ClientHandshake` of `connPub` that accepted the challenge of `sessionKey`
and signed its proof. -/
def ClientAgreed (index : ℕ) (sessionKey connPub nonceC nonceS : Bytes) : Prop :=
  ∃ session client result, world[index]? = some session ∧ session.role = .client client ∧
    crypto.publicKey client.connPriv = connPub ∧
    (walletNetwork crypto corrupt).state session =
      .clientDone client nonceC nonceS sessionKey result

/-- Session `index` is a `ClientHandshake` that expects `sessionKey` and returned without an error. -/
def ClientSucceeded (index : ℕ) (sessionKey nonceC nonceS : Bytes) : Prop :=
  ∃ session client presented identity, world[index]? = some session ∧
    client.expectSession = some sessionKey ∧
    (walletNetwork crypto corrupt).state session =
      .clientDone client nonceC nonceS presented (.ok identity)

/-- Session `index` is a `ServerHandshake` of `sessionKey` that answered `nonceC` with `nonceS`. -/
def ServerAnswered (index : ℕ) (sessionKey nonceC nonceS : Bytes) : Prop :=
  ∃ session server connPub chain signature, world[index]? = some session ∧
    session.role = .server server ∧ crypto.publicKey server.sessionPriv = sessionKey ∧
    ReadAt session.inputs 0 (.hello connPub nonceC chain) ∧ Drawn session.inputs nonceS ∧
    .challenge sessionKey nonceS signature ∈ (walletNetwork crypto corrupt).written session

/-- The session accepted `signature` as its peer's transcript. -/
def Accepts (session : WalletSession Private Signature) (signature : Signature) : Prop :=
  match (walletNetwork crypto corrupt).state session with
  | .serverVerified _ _ _ _ _ _ => ReadAt session.inputs 1 (.proof signature)
  | .clientDone _ _ _ _ _ =>
    ∃ sessionKey nonceS, ReadAt session.inputs 1 (.challenge sessionKey nonceS signature)
  | _ => False

/-- The label a role signs its own transcripts under. -/
def WalletRole.ownLabel : WalletRole Private Signature → String
  | .server _ => walletServerLabel
  | _ => walletClientLabel

/-- Agreement on the runs of a world. -/
structure WalletAgreement : Prop where
  server_matched : ∀ server sessionKey connPub nonceC nonceS, ¬ corrupt connPub →
    ServerAccepted crypto corrupt world server sessionKey connPub nonceC nonceS →
      ∃ client, ClientAgreed crypto corrupt world client sessionKey connPub nonceC nonceS
  servers_distinct : ∀ server server' client sessionKey connPub nonceC nonceS sessionKey' connPub'
    nonceC' nonceS', ServerAccepted crypto corrupt world server sessionKey connPub nonceC nonceS →
      ServerAccepted crypto corrupt world server' sessionKey' connPub' nonceC' nonceS' →
      ClientAgreed crypto corrupt world client sessionKey connPub nonceC nonceS →
      ClientAgreed crypto corrupt world client sessionKey' connPub' nonceC' nonceS' →
        server = server'
  client_matched : ∀ client sessionKey nonceC nonceS, ¬ corrupt sessionKey →
    ClientSucceeded crypto corrupt world client sessionKey nonceC nonceS →
      ∃ server, ServerAnswered crypto corrupt world server sessionKey nonceC nonceS
  directions : ∀ receiver ∈ world, ∀ signature, Accepts crypto corrupt receiver signature → ∀ key,
    (∀ fields : Fields, crypto.verify key fields.render signature = false) ∧
      ∀ nonceA nonceB sessionID, crypto.verify key (walletTranscript receiver.role.ownLabel nonceA
        nonceB sessionID) signature = false

variable {crypto corrupt} {world} {index : ℕ}

theorem ServerAccepted.challenged
    (haccepted : ServerAccepted crypto corrupt world index sessionKey connPub nonceC nonceS) :
    ∃ session server chain result, world[index]? = some session ∧
      crypto.publicKey server.sessionPriv = sessionKey ∧
      WalletChallenged crypto session.role session.inputs
        ((walletNetwork crypto corrupt).exec session).2 server connPub nonceC nonceS chain ∧
      ProofAccepted crypto session.inputs server connPub nonceC nonceS chain result := by
  obtain ⟨session, server, chain, result, hindex, hkey, hstate⟩ := haccepted
  have hlocal := (walletLocal crypto corrupt session).state
  rw [hstate] at hlocal
  exact ⟨session, server, chain, result, hindex, hkey, hlocal⟩

/-- The client behind a proof that a server accepted. -/
theorem ServerAccepted.matched (hreach : (walletNetwork crypto corrupt).machine.Reachable world)
    (hkey : ¬ corrupt connPub)
    (haccepted : ServerAccepted crypto corrupt world index sessionKey connPub nonceC nonceS) :
    ∃ client, ClientAgreed crypto corrupt world client sessionKey connPub nonceC nonceS := by
  obtain ⟨session, server, chain, result, hindex, rfl, hchallenged, hproof⟩ := haccepted.challenged
  obtain ⟨io, clientSig, hio, hread, hvalid, _⟩ := hproof
  obtain ⟨client, signer, hclient, hsigned⟩ := walletSigned_of_read hreach
    (List.mem_of_getElem? hindex) ⟨io, hio, hread⟩ (List.mem_singleton_self clientSig) hvalid hkey
  generalize hentry : (connPub, walletTranscript walletClientLabel nonceS nonceC
    (crypto.publicKey server.sessionPriv)) = entry at hsigned
  cases hsigned with
  | @client opts nonceC' nonceS' sessionKey' result hstate =>
    have hdone := (walletLocal crypto corrupt signer).state
    rw [hstate] at hdone
    have hlengthS := hchallenged.drawn.length.trans hdone.2.length.symm
    have hlengthC := hchallenged.length.trans hdone.2.drawn.length.symm
    obtain ⟨rfl, rfl, rfl⟩ := walletTranscript_injective hlengthS hlengthC (Prod.mk.inj hentry).2
    exact ⟨client, signer, opts, result, hclient, hdone.1, (Prod.mk.inj hentry).1.symm, hstate⟩
  | server _ =>
    exact absurd (Prod.mk.inj hentry).2.symm (walletTranscript_disjoint _ _ _ _ _ _)
  | delegator _ =>
    exact absurd (Prod.mk.inj hentry).2.symm (render_ne_walletTranscript (.inr rfl) _ _ _ _)

/-- Two accepting servers that drew one nonce are one session. -/
theorem ServerAccepted.unique (hreach : (walletNetwork crypto corrupt).machine.Reachable world)
    {index' : ℕ} {sessionKey' connPub' nonceC' : Bytes}
    (haccepted : ServerAccepted crypto corrupt world index sessionKey connPub nonceC nonceS)
    (haccepted' : ServerAccepted crypto corrupt world index' sessionKey' connPub' nonceC' nonceS) :
    index = index' := by
  obtain ⟨session, _, _, _, hindex, _, hchallenged, _⟩ := haccepted.challenged
  obtain ⟨session', _, _, _, hindex', _, hchallenged', _⟩ := haccepted'.challenged
  exact Network.drawing_session_unique hreach hindex hindex' hchallenged.drawn hchallenged'.drawn

theorem ClientAgreed.nonceS_eq {sessionKey' connPub' nonceC' nonceS' : Bytes}
    (hagreed : ClientAgreed crypto corrupt world index sessionKey connPub nonceC nonceS)
    (hagreed' : ClientAgreed crypto corrupt world index sessionKey' connPub' nonceC' nonceS') :
    nonceS = nonceS' := by
  obtain ⟨session, client, result, hindex, _, _, hstate⟩ := hagreed
  obtain ⟨session', client', result', hindex', _, _, hstate'⟩ := hagreed'
  obtain rfl : session = session' := Option.some.inj (hindex.symm.trans hindex')
  rw [hstate] at hstate'
  injection hstate'

/-- The server behind a challenge that a client accepted. -/
theorem ClientSucceeded.matched (hreach : (walletNetwork crypto corrupt).machine.Reachable world)
    (hkey : ¬ corrupt sessionKey)
    (hsucceeded : ClientSucceeded crypto corrupt world index sessionKey nonceC nonceS) :
    ∃ server, ServerAnswered crypto corrupt world server sessionKey nonceC nonceS := by
  obtain ⟨session, client, presented, identity, hindex, hexpect, hstate⟩ := hsucceeded
  have hdone := (walletLocal crypto corrupt session).state
  rw [hstate] at hdone
  have hpresented : sessionKey = presented := by
    have hmet := hdone.2.expected
    rw [WalletRun.expectationMet, hexpect] at hmet
    exact of_decide_eq_true hmet
  subst hpresented
  obtain ⟨serverSig, hread, hvalid⟩ := hdone.2.heard
  obtain ⟨server, signer, hserver, hsigned⟩ := walletSigned_of_read hreach
    (List.mem_of_getElem? hindex) hread (List.mem_singleton_self serverSig) hvalid hkey
  generalize hentry : (sessionKey, walletTranscript walletServerLabel nonceC nonceS sessionKey) =
    entry at hsigned
  cases hsigned with
  | client _ => exact absurd (Prod.mk.inj hentry).2 (walletTranscript_disjoint _ _ _ _ _ _)
  | @server auth connPub nonceC' nonceS' chain hchallenged =>
    have hlengthC := hdone.2.drawn.length.trans hchallenged.length.symm
    have hlengthS := hdone.2.length.trans hchallenged.drawn.length.symm
    obtain ⟨rfl, rfl, hsession⟩ :=
      walletTranscript_injective hlengthC hlengthS (Prod.mk.inj hentry).2
    subst hsession
    exact ⟨server, signer, auth, connPub, chain, _, hserver, hchallenged.configured, rfl,
      hchallenged.heard, hchallenged.drawn, hchallenged.sent⟩
  | delegator _ =>
    exact absurd (Prod.mk.inj hentry).2.symm (render_ne_walletTranscript (.inl rfl) _ _ _ _)

/-- The label a role accepts its peer's transcripts under. -/
def WalletRole.peerLabel : WalletRole Private Signature → String
  | .server _ => walletClientLabel
  | _ => walletServerLabel

theorem Accepts.valid {receiver : WalletSession Private Signature}
    (haccepts : Accepts crypto corrupt receiver signature) :
    ∃ key nonceA nonceB sessionID, crypto.verify key (walletTranscript receiver.role.peerLabel nonceA
      nonceB sessionID) signature = true := by
  have hlocal := (walletLocal crypto corrupt receiver).state
  unfold Accepts at haccepts
  split at haccepts
  · next server connPub nonceC nonceS chain result hstate =>
    rw [hstate] at hlocal
    obtain ⟨hchallenged, io, clientSig, hio, hread, hvalid, _⟩ := hlocal
    obtain ⟨io', hio', hread'⟩ := haccepts
    obtain rfl : io = io' := Option.some.inj (hio.symm.trans hio')
    obtain ⟨rfl⟩ : clientSig = signature := by simpa [hread] using hread'
    rw [hchallenged.configured]
    exact ⟨connPub, nonceS, nonceC, _, hvalid⟩
  · next client nonceC nonceS sessionKey result hstate =>
    rw [hstate] at hlocal
    obtain ⟨serverSig, ⟨io, hio, hread⟩, hvalid⟩ := hlocal.2.heard
    obtain ⟨_, _, io', hio', hread'⟩ := haccepts
    obtain rfl : io = io' := Option.some.inj (hio.symm.trans hio')
    obtain ⟨rfl, rfl, rfl⟩ : sessionKey = _ ∧ nonceS = _ ∧ serverSig = signature := by
      simpa [hread] using hread'
    rw [hlocal.1]
    exact ⟨sessionKey, nonceC, nonceS, sessionKey, hvalid⟩
  · exact haccepts.elim

theorem peerTranscript_ne_ownTranscript (role : WalletRole Private Signature)
    (nonceA nonceB sessionID nonceA' nonceB' sessionID' : Bytes) :
    walletTranscript role.peerLabel nonceA nonceB sessionID ≠
      walletTranscript role.ownLabel nonceA' nonceB' sessionID' := by
  cases role with
  | server _ => exact (walletTranscript_disjoint _ _ _ _ _ _).symm
  | client _ => exact walletTranscript_disjoint _ _ _ _ _ _
  | delegator _ _ => exact walletTranscript_disjoint _ _ _ _ _ _

/-- A signature accepted in one direction is neither a delegation nor one of the other direction. -/
theorem Accepts.directions {receiver : WalletSession Private Signature}
    (haccepts : Accepts crypto corrupt receiver signature) (key : PublicKey) :
    (∀ fields : Fields, crypto.verify key fields.render signature = false) ∧
      ∀ nonceA nonceB sessionID, crypto.verify key (walletTranscript receiver.role.ownLabel nonceA
        nonceB sessionID) signature = false := by
  obtain ⟨peer, nonceA', nonceB', sessionID', hvalid⟩ := haccepts.valid
  have hpeer : receiver.role.peerLabel = walletServerLabel ∨
      receiver.role.peerLabel = walletClientLabel := by
    cases receiver.role with
    | server _ => exact .inr rfl
    | client | delegator => exact .inl rfl
  constructor
  · intro fields
    apply Bool.eq_false_iff.mpr
    intro hother
    exact render_ne_walletTranscript hpeer fields _ _ _ (crypto.verify_unique hother hvalid).2
  · intro nonceA nonceB sessionID
    apply Bool.eq_false_iff.mpr
    intro hother
    exact peerTranscript_ne_ownTranscript _ _ _ _ _ _ _ (crypto.verify_unique hvalid hother).2

/-- The runs of every reachable world agree. -/
theorem wallet_agreement (hreach : (walletNetwork crypto corrupt).machine.Reachable world) :
    WalletAgreement crypto corrupt world where
  server_matched _ _ _ _ _ hkey haccepted := haccepted.matched hreach hkey
  servers_distinct _ _ _ _ _ _ _ _ _ _ _ haccepted haccepted' hagreed hagreed' := by
    have hnonce := hagreed.nonceS_eq hagreed'
    subst hnonce
    exact haccepted.unique hreach haccepted'
  client_matched _ _ _ _ hkey hsucceeded := hsucceeded.matched hreach hkey
  directions _ _ _ haccepts key := haccepts.directions key

end Network

section Example

/-- A segment in which one message is read and nothing is drawn. -/
def reading (message : WalletHandshakeMessage FreeSignature) : WalletSegment FreeSignature :=
  ⟨.ok message, .error "no randomness", .ok (), exampleEnv⟩

/-- A segment in which nothing is read and a nonce is drawn. -/
def drawing (nonce : Nonce) : WalletSegment FreeSignature :=
  ⟨.error "nothing to read", .ok nonce, .ok (), exampleEnv⟩

/-- The owner delegates to connection key 3, which then attaches to the session. -/
def attachRun : List (NetworkAction (WalletRole FreePrivate FreeSignature)
    (WalletSegment FreeSignature)) :=
  [.spawn (.delegator (freeKey 1) (exampleFields 1 3 allCaps)), .feed 0 (drawing (freeNonce 6)),
    .spawn (.client ⟨freeKey 3, [exampleDelegation 1 3 allCaps], some (freeKey 2).1⟩),
    .spawn (.server exampleSession), .feed 1 (drawing (freeNonce 7)),
    .feed 2 ⟨.ok (.hello (freeKey 3).1 (freeNonce 7).1 [exampleDelegation 1 3 allCaps]),
      .ok (freeNonce 8), .ok (), exampleEnv⟩,
    .feed 1 (reading (.challenge (freeKey 2).1 (freeNonce 8).1 (freeEd25519.sign (freeKey 2)
      (walletTranscript walletServerLabel (freeNonce 7).1 (freeNonce 8).1 (freeKey 2).1)))),
    .feed 2 (reading (.proof (freeEd25519.sign (freeKey 3)
      (walletTranscript walletClientLabel (freeNonce 8).1 (freeNonce 7).1 (freeKey 2).1))))]

/-- The world after the run, for an adversary that holds key 5. -/
def attachWorld : WalletWorld FreePrivate FreeSignature :=
  (walletNetwork freeEd25519 (· = (freeKey 5).1)).machine.run [] attachRun

instance (corrupt : PublicKey → Prop) : DecidablePred (walletNetwork freeEd25519 corrupt).known :=
  fun _ ↦ .isFalse id

theorem attachRun_legal :
    (walletNetwork freeEd25519 (· = (freeKey 5).1)).machine.Legal [] attachRun :=
  Network.legal_of_replay (fun _ ↦ False) (by simp) (by decide +kernel)

theorem attachWorld_reachable :
    (walletNetwork freeEd25519 (· = (freeKey 5).1)).machine.Reachable attachWorld :=
  Machine.Reachable.init.run attachRun_legal

/-- Both sides of the run returned without an error, and the agreement holds of its world. -/
theorem wallet_agreement_attach :
    ServerAccepted freeEd25519 (· = (freeKey 5).1) attachWorld 2 (freeKey 2).1 (freeKey 3).1
        (freeNonce 7).1 (freeNonce 8).1 ∧
      ClientSucceeded freeEd25519 (· = (freeKey 5).1) attachWorld 1 (freeKey 2).1 (freeNonce 7).1
        (freeNonce 8).1 ∧
      WalletAgreement freeEd25519 (· = (freeKey 5).1) attachWorld :=
  ⟨⟨_, exampleSession, _, _, rfl, rfl, rfl⟩, ⟨_, _, _, _, rfl, rfl, rfl⟩,
    wallet_agreement attachWorld_reachable⟩

end Example

end Mosey.Auth
