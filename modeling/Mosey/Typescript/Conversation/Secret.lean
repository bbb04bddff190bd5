import Mosey.Auth.PSKNetwork
import Mosey.Typescript.Calls
import Mosey.Typescript.PlainProto

/-!
# A client and a server of the shared secret

The handshake of the client runs against the server of the same protocol, byte for byte. How it ends is
settled by the label and the secret and not by the network: frames may be cut anywhere, tasks may end late,
and the server may close before the client has read.
-/

namespace Mosey.Typescript

open Library Auth

theorem writes_authClientHello (engine : Engine) (nonce : Bytes) (label : String) :
    Writes engine (encodeAuthClientHello engine ⟨nonce, label⟩)
      (wire [(1, clientHelloWire nonce label)]) := by
  have hinner := length_le_wire (List.mem_singleton_self (1, clientHelloWire nonce label))
  refine (writes_bytesField engine 1 nonce).bind ((length_part_le_wire List.mem_cons_self).trans hinner) ?_
  by_cases hlabel : label = ""
  · have hstring : encodeStringField engine 2 label = .ok [] := if_pos hlabel
    have hwire : clientHelloWire nonce label = [wire [(1, nonce)], []].flatten := by
      simp [clientHelloWire, hlabel]
    have hconcat := writes_concat engine [wire [(1, nonce)], []]
    rw [← hwire] at hconcat
    rw [hstring]
    exact hconcat.bind hinner (writes_bytesField engine 1 _)
  · have hstring : encodeStringField engine 2 label = encodeBytesField engine 2 (Utf8.encode label.toList) :=
      if_neg hlabel
    have hwire : clientHelloWire nonce label = wire [(1, nonce), (2, Utf8.encode label.toList)] := by
      rw [clientHelloWire, if_neg hlabel]
    rw [hstring]
    refine (writes_bytesField engine 2 _).bind ?_ ?_
    · rw [hwire] at hinner ⊢
      exact (length_part_le_wire (by simp)).trans hinner
    · rw [hwire] at hinner ⊢
      exact (writes_concat_parts engine [_, _]).bind hinner (writes_bytesField engine 1 _)

theorem writes_authClientProof (engine : Engine) (mac : Bytes) :
    Writes engine (encodeAuthClientProof engine ⟨mac⟩) (wire [(3, wire [(1, mac)])]) :=
  (writes_bytesField engine 1 _).bind (length_le_wire List.mem_cons_self) (writes_bytesField engine 3 _)

/-- A client and a server with its secrets. Their messages are within the limit. -/
structure PSKParties (Key : Type) where
  crypto : PSKCrypto Key Bytes
  engine : Engine
  hasRoom : HasRoom engine
  codec : AuthCodec
  entries : List NamedSecret
  auth : PSKAuth Key
  auth_eq : PSKAuth.newMultiPSKAuth crypto entries = .ok auth
  opts : PSKAuthOptions
  nonceC : Nonce
  nonceS : Nonce
  length_hello_le : (wire [(1, clientHelloWire nonceC.1 (opts.label.getD ""))]).length ≤ maxMessageSize
  length_marshal_le : ∀ named ∈ entries, (codec.marshal (.serverProof nonceS.1 (PSKAuth.mac crypto
    (PSKAuth.derivePSKKey crypto named.secret) macLabelServer nonceC.1 nonceS.1))).length ≤ maxMessageSize
  length_wire_le : (wire [(3, wire [(1, PSKAuth.mac crypto (PSKAuth.derivePSKKey crypto opts.secret)
    macLabelClient nonceS.1 nonceC.1)])]).length ≤ maxMessageSize

namespace PSKParties

variable {Key : Type} (parties : PSKParties Key)

def listener : Listener (PSKRun Key) (Auth.AuthMessage Bytes) :=
  pskListener parties.crypto (.ok parties.nonceS)

def peer : Peer :=
  .ofListener parties.listener parties.codec (PSKRun.initial parties.crypto (.server parties.entries))

def program : Async Unit := runPSKHandshake parties.crypto parties.engine parties.opts parties.nonceC

/-- The secret that the client asks for. -/
def requested : Option NamedSecret :=
  parties.entries.find? fun named ↦ named.label = PSKAuth.requestedLabel (parties.opts.label.getD "")

/-- How both sides end. -/
def Ends (status : ServeStatus) (rest : Rest Unit) : Prop :=
  match parties.requested with
  | none =>
    status = .refused (.rejected errPrefixPSK ": unknown label") ∧
      ∃ reason, rest = .settled (.error (.stream reason))
  | some named =>
    if named.secret = parties.opts.secret then
      status = .accepted named.identity ∧ rest = .settled (.ok ())
    else
      status = .waiting ∧
        rest = .settled (.error (.error "mosey/auth(psk): server MAC mismatch (wrong secret or replay)"))

/-- They end so with the server at what it has been sent. -/
def EndsAt (sent : Bytes) : Rest Unit → Prop := parties.Ends (parties.peer.answer sent).status

def hello : Bytes := wire [(1, clientHelloWire parties.nonceC.1 (parties.opts.label.getD ""))]

def serverMac (secret : String) : Bytes :=
  PSKAuth.mac parties.crypto (PSKAuth.derivePSKKey parties.crypto secret) macLabelServer parties.nonceC.1
    parties.nonceS.1

def serverProof (secret : String) : Bytes :=
  parties.codec.marshal (.serverProof parties.nonceS.1 (parties.serverMac secret))

def clientMac : Bytes :=
  PSKAuth.mac parties.crypto (PSKAuth.derivePSKKey parties.crypto parties.opts.secret) macLabelClient
    parties.nonceS.1 parties.nonceC.1

def proof : Bytes := wire [(3, wire [(1, parties.clientMac)])]

theorem length_proof_le : parties.proof.length ≤ maxMessageSize := parties.length_wire_le

theorem encodes_serverProof (secret : String) :
    Auth.AuthMessage.Encodes (.serverProof parties.nonceS.1 (parties.serverMac secret))
      (parties.serverProof secret) :=
  parties.codec.encodes_marshal (.serverProof (encodesPair_wire _ _))

/-- The server looks up the secret under the label that the client asks for. -/
theorem byLabel_eq :
    parties.auth.byLabel (PSKAuth.requestedLabel (parties.opts.label.getD "")) =
      parties.requested.map (PSKAuth.newEntry parties.crypto) := by
  rw [PSKAuth.byLabel, (newMultiPSKAuth_eq_ok parties.auth_eq).1, List.find?_map]
  rfl

theorem peer_eq : parties.peer = .ofListener parties.listener parties.codec (.serverStart parties.auth) := by
  rw [peer, PSKRun.initial, parties.auth_eq]

theorem outcome_start : parties.listener.outcome (.serverStart parties.auth) = none := rfl

theorem answer_nil : parties.peer.answer [] = .waiting := by
  rw [peer_eq]
  exact Listener.serve_nil parties.codec parties.outcome_start

/-- The server answers a hello for a label it has, and serves what follows. -/
theorem answer_hello_append (more : Bytes) :
    parties.peer.answer (framed parties.hello ++ more) =
      match parties.requested with
      | none => ⟨[], .refused (.rejected errPrefixPSK ": unknown label")⟩
      | some named =>
        (parties.listener.serve parties.codec (.serverAwait (PSKAuth.newEntry parties.crypto named)
          parties.nonceC.1 parties.nonceS.1) more).behind (framed (parties.serverProof named.secret)) := by
  have hencodes : Auth.AuthMessage.Encodes (.clientHello parties.nonceC.1 (parties.opts.label.getD ""))
      parties.hello := encodes_clientHello parties.nonceC.1 _
  rw [peer_eq]
  refine (Listener.serve_framed parties.outcome_start hencodes parties.length_hello_le more).trans ?_
  rw [listener, receive_clientHello, byLabel_eq]
  cases parties.requested with
  | none =>
    dsimp only [Option.map_none]
    rw [Listener.serve_of_outcome parties.codec rfl]
    rfl
  | some named =>
    dsimp only [Option.map_some]
    rw [List.flatMap_singleton, parties.codec.marshalTo_eq]
    rfl

/-- What the server has written when it has read the hello. -/
theorem answer_hello :
    parties.peer.answer (framed parties.hello) =
      match parties.requested with
      | none => ⟨[], .refused (.rejected errPrefixPSK ": unknown label")⟩
      | some named => ⟨framed (parties.serverProof named.secret), .waiting⟩ := by
  rw [← List.append_nil (framed _), answer_hello_append]
  cases parties.requested with
  | none => rfl
  | some named =>
    dsimp only
    rw [Listener.serve_nil parties.codec rfl, Answer.behind, Answer.waiting, List.append_nil]

/-- With the same secret, the server acknowledges the client's proof. -/
theorem answer_proof {named : NamedSecret} (hnamed : parties.requested = some named)
    (hsecret : named.secret = parties.opts.secret) :
    parties.peer.answer (framed parties.hello ++ framed parties.proof) =
      ⟨framed (parties.serverProof named.secret) ++ [ackOK], .accepted named.identity⟩ := by
  have hencodes : Auth.AuthMessage.Encodes (.clientProof (PSKAuth.mac parties.crypto
      (PSKAuth.newEntry parties.crypto named).key macLabelClient parties.nonceS.1 parties.nonceC.1))
        parties.proof := by
    rw [proof, clientMac, ← hsecret]
    exact encodes_clientProof _
  rw [answer_hello_append, hnamed, ← List.append_nil (framed parties.proof)]
  dsimp only
  rw [Listener.serve_framed rfl hencodes parties.length_proof_le, listener, receive_clientProof,
    Listener.serve_of_outcome parties.codec rfl]
  rfl

/-- The calls of the client, and what it makes of a server's proof. -/
theorem program_eq :
    ∃ next, parties.program = .later (.sendFramed parties.hello (.readFramed next)) ∧
      ∀ named ∈ parties.entries, next (parties.serverProof named.secret) =
        if named.secret = parties.opts.secret then
          .later (.later (.sendFramed parties.proof (.readAck pskAck ())))
        else
          .later (.throws (.error "mosey/auth(psk): server MAC mismatch (wrong secret or replay)")) := by
  have hroom := maxMessageSize_le parties.hasRoom
  have hhello : encodeAuthClientHello parties.engine ⟨parties.nonceC.1, parties.opts.label.getD ""⟩ =
      .ok parties.hello :=
    (writes_authClientHello parties.engine _ _).eq_ok (parties.length_hello_le.trans hroom)
  have hproof : encodeAuthClientProof parties.engine ⟨parties.clientMac⟩ = .ok parties.proof :=
    (writes_authClientProof parties.engine _).eq_ok (parties.length_proof_le.trans hroom)
  have hnonce : parties.nonceS.1.length = NONCE_SIZE := parties.nonceS.2
  have hserver : parties.crypto.mac (parties.crypto.hkdf parties.opts.secret PSK_HKDF_INFO)
      [labelBytes MAC_LABEL_SERVER, parties.nonceC.1, parties.nonceS.1].flatten =
        parties.serverMac parties.opts.secret :=
    congrArg (parties.crypto.mac _) (by simp [PSKAuth.macInput, labelBytes, MAC_LABEL_SERVER, macLabelServer])
  have hclient : parties.crypto.mac (parties.crypto.hkdf parties.opts.secret PSK_HKDF_INFO)
      [labelBytes MAC_LABEL_CLIENT, parties.nonceS.1, parties.nonceC.1].flatten = parties.clientMac :=
    congrArg (parties.crypto.mac _) (by simp [PSKAuth.macInput, labelBytes, MAC_LABEL_CLIENT, macLabelClient])
  rw [program, runPSKHandshake, derivePSKKey]
  dsimp only
  rw [hhello]
  refine ⟨_, rfl, fun named hmem ↦ ?_⟩
  rw [decodeAuthMessage_encoded_serverProof (parties.encodes_serverProof named.secret)
    ((parties.length_marshal_le named hmem).trans hroom)]
  dsimp only [Except.mapError, Async.attempt]
  rw [ofLength_eq_ok hnonce]
  dsimp only [hmacSHA256]
  rw [constantTimeEqual_bytes, hserver, hclient, hproof]
  have hsame : decide (parties.serverMac named.secret = parties.serverMac parties.opts.secret) =
      decide (named.secret = parties.opts.secret) := by
    rw [decide_eq_decide]
    constructor
    · intro heq
      exact parties.crypto.hkdf_injective (parties.crypto.mac_injective heq).1
    · intro hsecret
      rw [hsecret]
  rw [hsame]
  by_cases hsecret : named.secret = parties.opts.secret
  · rw [if_pos hsecret, decide_eq_true hsecret, if_neg (by decide)]
  · rw [if_neg hsecret, decide_eq_false hsecret, if_pos rfl]

/-- The handshake when every call blocks. -/
theorem program_meets : parties.program.meets parties.engine parties.peer parties.EndsAt [] 0 := by
  obtain ⟨next, hprogram, hnext⟩ := parties.program_eq
  have hhello : parties.hello.length ≤ maxMessageSize := parties.length_hello_le
  have hanswer := parties.answer_hello
  have hstart : parties.peer.done [] = false := by
    rw [Peer.done, answer_nil]
    rfl
  rw [hprogram, Async.meets]
  cases hnamed : parties.requested with
  | none =>
    rw [hnamed] at hanswer
    apply meets_hello_refused parties.hasRoom hhello hstart
    · rw [hanswer]
    · rw [Peer.done, hanswer]
      rfl
    · intro reason
      rw [EndsAt, Ends, hnamed, hanswer]
      exact ⟨rfl, reason, rfl⟩
  | some named =>
    rw [hnamed] at hanswer
    have hmem : named ∈ parties.entries := List.mem_of_find?_eq_some hnamed
    have hproof : (parties.serverProof named.secret).length ≤ maxMessageSize :=
      parties.length_marshal_le named hmem
    refine meets_hello parties.hasRoom hhello hstart hproof (congrArg Answer.written hanswer) ?_
    rw [hnext named hmem]
    split_ifs with hsecret
    · have hlast := parties.answer_proof hnamed hsecret
      rw [Async.meets, Async.meets]
      apply meets_proof parties.hasRoom parties.length_proof_le (length_framed_lt parties.hasRoom hproof)
      · rw [Peer.done, hanswer]
        rfl
      · rw [hlast]
      · rw [EndsAt, Ends, hnamed, hlast]
        dsimp only
        rw [if_pos hsecret]
        exact ⟨rfl, rfl⟩
    · rw [Async.meets, Async.meets, EndsAt, Ends, hnamed, hanswer]
      dsimp only
      rw [if_neg hsecret]
      exact ⟨rfl, rfl⟩

end PSKParties

/-- The client waits for at most three tasks. -/
theorem waitsAtMost_runPSKHandshake {Key : Type} (crypto : PSKCrypto Key Bytes) (engine : Engine)
    (opts : PSKAuthOptions) (nonceC : Nonce) : (runPSKHandshake crypto engine opts nonceC).waitsAtMost 3 := by
  apply waitsAtMost_attempt
  intro hello proofMsg
  apply waitsAtMost_attempt
  intro decoded
  split
  · trivial
  · split
    · trivial
    · dsimp only [hmacSHA256, Async.waitsAtMost]
      split
      · trivial
      · apply waitsAtMost_attempt
        intro proof
        trivial

/-- However the network delivers, a client and a server of the shared secret come to an end, and how they end
is in the label and the secret: the server accepts under the identity of the label, the client finds that the
server does not have its secret, or the server refuses a label it does not know. -/
theorem psk_conversation {Key : Type} (parties : PSKParties Key) {events : List ClientEvent} :
    let machine := exchangeMachine parties.engine parties.peer parties.program
    let exchange := machine.run machine.init events
    machine.Legal machine.init events →
      events.length ≤ 3 + (exchange.answer parties.peer).written.length + 1 ∧
        (∀ outcome, exchange.rest = .settled outcome →
          parties.Ends (exchange.answer parties.peer).status (.settled outcome)) ∧
        (exchange.Quiet parties.peer → parties.Ends (exchange.answer parties.peer).status exchange.rest) := by
  intro machine exchange hlegal
  refine exchange_ends parties.program_meets ?_ ?_ hlegal
  · rw [parties.answer_nil]
    exact Nat.zero_le _
  · exact waitsAtMost_runPSKHandshake parties.crypto parties.engine parties.opts parties.nonceC

def viewerParties : PSKParties Bytes where
  crypto := plainPSK
  engine := exampleEngine
  hasRoom := hasRoom_exampleEngine
  codec := plainAuthCodec
  entries := [viewer]
  auth := _
  auth_eq := rfl
  opts := viewerOptions
  nonceC := helloNonce
  nonceS := proofNonce
  length_hello_le := by decide +kernel
  length_marshal_le := by
    simp only [List.mem_singleton, forall_eq]
    decide +kernel
  length_wire_le := by decide +kernel

abbrev viewerConversation : Machine (Exchange Unit) ClientEvent :=
  exchangeMachine exampleEngine viewerParties.peer viewerParties.program

/-- The proof of the server is cut in two, and the server closes behind its acknowledgement. -/
def viewerExchange : List ClientEvent :=
  [.task, .binary (viewerServerFrame.take 40), .binary (viewerServerFrame.drop 40), .task, .task,
    .binary [ackOK], .closed 1000 ""]

theorem psk_conversation_viewer :
    let exchange := viewerConversation.run viewerConversation.init viewerExchange
    viewerConversation.Legal viewerConversation.init viewerExchange ∧
      viewerParties.Ends (exchange.answer viewerParties.peer).status exchange.rest ∧
      (exchange.answer viewerParties.peer).status = .accepted viewer.identity := by
  have hlegal : viewerConversation.Legal viewerConversation.init viewerExchange := by decide +kernel
  have hends := (psk_conversation viewerParties hlegal).2.2
    (Exchange.quiet_of_ended (by decide +kernel) (by decide +kernel))
  exact ⟨hlegal, hends, hends.1⟩

end Mosey.Typescript
