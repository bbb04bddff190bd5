import Mosey.Library.Network
import Mosey.Text
import Mosey.Auth.Handshake

/-!
# The shared-secret handshake

`PSKAuth` runs an HMAC challenge and response over one of several named secrets. The client sends a
nonce and a label, the server answers with its own nonce and a code over both, and the client closes
with the code in the other direction. Each function below is the code between two reads; a session
is the state machine they form. A registered authenticator is kept as its entries in registration
order, which determine both the label table and the client's entry.

The key derivation and HMAC are a parameter, ideal in the sense that distinct secrets give distinct
keys and no two codes collide.
-/

namespace Mosey.Auth

open Library

def pskInfo : String := "mosey.v1.psk"

def macLabelServer : String := "mosey-auth-v1:S"

def macLabelClient : String := "mosey-auth-v1:C"

def errPrefixPSK : String := "mosey/auth(psk): "

def labelOwner : String := "owner"

def nonceSize : ℕ := 32

/-- HKDF-SHA256 under a given info string and HMAC-SHA256, both ideal. -/
structure PSKCrypto (Key Tag : Type) extends IdealMac Key Bytes Tag where
  hkdf : String → String → Key
  hkdf_injective : ∀ {secret secret' info}, hkdf secret info = hkdf secret' info → secret = secret'

structure NamedSecret where
  label : String
  secret : String
  caps : Capabilities
  deriving DecidableEq

structure Entry (Key : Type) where
  label : String
  key : Key
  identity : Identity

structure PSKAuth (Key : Type) where
  entries : List (Entry Key)

inductive AuthMessage (Tag : Type)
  | clientHello (nonce : Bytes) (label : String)
  | serverProof (nonce : Bytes) (mac : Tag)
  | clientProof (mac : Tag)
  | unset

abbrev PSKSegment (Tag : Type) := Segment (AuthMessage Tag) Unit

namespace AuthMessage

variable {Tag : Type}

/-- The `%T` of the message's oneof payload. -/
def kind : AuthMessage Tag → String
  | clientHello _ _ => "*api.AuthMessage_ClientHello"
  | serverProof _ _ => "*api.AuthMessage_ServerProof"
  | clientProof _ => "*api.AuthMessage_ClientProof"
  | unset => "<nil>"

def tags : AuthMessage Tag → List Tag
  | serverProof _ mac => [mac]
  | clientProof mac => [mac]
  | _ => []

def nonces : AuthMessage Tag → List Bytes
  | clientHello nonce _ => [nonce]
  | serverProof nonce _ => [nonce]
  | _ => []

end AuthMessage

def NamedSecret.identity (named : NamedSecret) : Identity := ⟨named.label, named.caps⟩

namespace PSKAuth

variable {Key Tag : Type} (crypto : PSKCrypto Key Tag)

def derivePSKKey (secret : String) : Key := crypto.hkdf secret pskInfo

def newEntry (named : NamedSecret) : Entry Key :=
  ⟨named.label, derivePSKKey crypto named.secret, named.identity⟩

/-- The entry a client's label hint asks for: an empty hint means the owner's. -/
def requestedLabel (hint : String) : String := if hint = "" then labelOwner else hint

def byLabel (auth : PSKAuth Key) (label : String) : Option (Entry Key) :=
  auth.entries.find? fun entry ↦ entry.label = label

/-- The loop body of `NewMultiPSKAuth`. -/
def register (out : PSKAuth Key) (named : NamedSecret) : Except AuthError (PSKAuth Key) :=
  if named.label = "" then
    .error (.plain (errPrefixAuth ++ "secret entry needs a non-empty Label"))
  else if named.secret = "" then
    .error (.plain (errPrefixAuth ++ "secret entry " ++ goQuote named.label ++ " has empty Secret"))
  else if (out.byLabel named.label).isSome then
    .error (.plain (errPrefixAuth ++ "duplicate label " ++ goQuote named.label))
  else
    .ok ⟨out.entries ++ [newEntry crypto named]⟩

def newMultiPSKAuth (entries : List NamedSecret) : Except AuthError (PSKAuth Key) :=
  if entries = [] then
    .error (.plain (errPrefixAuth ++ "at least one secret entry required"))
  else
    entries.foldlM (register crypto) ⟨[]⟩

/-- The bytes hashed by `mac`. -/
def macInput (label : String) (nonceA nonceB : Bytes) : Bytes := ascii label ++ nonceA ++ nonceB

def mac (key : Key) (label : String) (nonceA nonceB : Bytes) : Tag :=
  crypto.mac key (macInput label nonceA nonceB)

end PSKAuth

open PSKAuth

inductive PSKRole
  | client (entries : List NamedSecret)
  | server (entries : List NamedSecret)

def PSKRole.isServer : PSKRole → Bool
  | client _ => false
  | server _ => true

/-- Where a handshake stands. A client is done once it has accepted the server's proof and computed
its own, whether or not that last write succeeds. -/
inductive PSKRun (Key : Type)
  | clientStart (auth : PSKAuth Key)
  | clientAwait (entry : Entry Key) (nonceC : Bytes)
  | clientDone (entry : Entry Key) (nonceC nonceS : Bytes) (result : Except AuthError Identity)
  | serverStart (auth : PSKAuth Key)
  | serverAwait (entry : Entry Key) (nonceC nonceS : Bytes)
  | serverDone (entry : Entry Key) (nonceC nonceS : Bytes) (identity : Identity)
  | failed (error : AuthError)

namespace PSKRun

variable {Key Tag : Type} (crypto : PSKCrypto Key Tag)

abbrev Outcome (Key Tag : Type) := PSKRun Key × Effects (AuthMessage Tag) Key Bytes

def fail (error : AuthError) : Outcome Key Tag := (failed error, .none)

/-- `ClientHandshake` up to its read. -/
def sendClientHello (auth : PSKAuth Key) (io : PSKSegment Tag) : Outcome Key Tag :=
  match auth.entries with
  | [] => fail (.plain (errPrefixPSK ++ "no entries configured"))
  | clientEntry :: _ =>
    match io.rand with
    | .error err => fail (.plain (errPrefixPSK ++ "nonce: " ++ err))
    | .ok nonceC =>
      let hello := AuthMessage.clientHello nonceC.1 clientEntry.label
      match io.write with
      | .error err => (failed (.plain (errPrefixPSK ++ "send client_hello: " ++ err)), ⟨[hello], []⟩)
      | .ok _ => (clientAwait clientEntry nonceC.1, ⟨[hello], []⟩)

/-- `ClientHandshake` from its read to its return. -/
def finishClient [DecidableEq Tag] (clientEntry : Entry Key) (nonceC : Bytes) (io : PSKSegment Tag) :
    Outcome Key Tag :=
  match io.read with
  | .error err => fail (.plain (errPrefixPSK ++ "read server_proof: " ++ err))
  | .ok (.serverProof nonceS serverMac) =>
    if nonceS.length ≠ nonceSize then
      fail (.rejected errPrefixPSK (": server nonce length " ++ toString nonceS.length))
    else if serverMac ≠ mac crypto clientEntry.key macLabelServer nonceC nonceS then
      fail (.rejected errPrefixPSK ": server mac mismatch")
    else
      let clientMac := mac crypto clientEntry.key macLabelClient nonceS nonceC
      let effects := ⟨[AuthMessage.clientProof clientMac],
        [(clientEntry.key, macInput macLabelClient nonceS nonceC)]⟩
      match io.write with
      | .error err => (clientDone clientEntry nonceC nonceS
          (.error (.plain (errPrefixPSK ++ "send client_proof: " ++ err))), effects)
      | .ok _ => (clientDone clientEntry nonceC nonceS (.ok clientEntry.identity), effects)
  | .ok other =>
    fail (.rejected errPrefixPSK (": server sent " ++ other.kind ++ ", expected ServerProof"))

/-- `ServerHandshake` from its first read to its second. -/
def sendServerProof (auth : PSKAuth Key) (io : PSKSegment Tag) : Outcome Key Tag :=
  match io.read with
  | .error err => fail (.plain (errPrefixPSK ++ "read client_hello: " ++ err))
  | .ok (.clientHello nonceC hint) =>
    if nonceC.length ≠ nonceSize then
      fail (.rejected errPrefixPSK (": client nonce length " ++ toString nonceC.length))
    else
      match auth.byLabel (requestedLabel hint) with
      | none => fail (.rejected errPrefixPSK ": unknown label")
      | some srvEntry =>
        match io.rand with
        | .error err => fail (.plain (errPrefixPSK ++ "nonce: " ++ err))
        | .ok nonceS =>
          let serverMac := mac crypto srvEntry.key macLabelServer nonceC nonceS.1
          let effects := ⟨[AuthMessage.serverProof nonceS.1 serverMac],
            [(srvEntry.key, macInput macLabelServer nonceC nonceS.1)]⟩
          match io.write with
          | .error err => (failed (.plain (errPrefixPSK ++ "send server_proof: " ++ err)), effects)
          | .ok _ => (serverAwait srvEntry nonceC nonceS.1, effects)
  | .ok other =>
    fail (.rejected errPrefixPSK (": client sent " ++ other.kind ++ ", expected ClientHello"))

/-- `ServerHandshake` from its second read to its return. -/
def finishServer [DecidableEq Tag] (srvEntry : Entry Key) (nonceC nonceS : Bytes) (io : PSKSegment Tag) :
    Outcome Key Tag :=
  match io.read with
  | .error err => fail (.plain (errPrefixPSK ++ "read client_proof: " ++ err))
  | .ok (.clientProof clientMac) =>
    if clientMac ≠ mac crypto srvEntry.key macLabelClient nonceS nonceC then
      fail (.rejected errPrefixPSK ": client mac mismatch")
    else
      (serverDone srvEntry nonceC nonceS srvEntry.identity, .none)
  | .ok other =>
    fail (.rejected errPrefixPSK (": client sent " ++ other.kind ++ ", expected ClientProof"))

def initial : PSKRole → PSKRun Key
  | .client entries =>
    match newMultiPSKAuth crypto entries with
    | .ok auth => clientStart auth
    | .error err => failed err
  | .server entries =>
    match newMultiPSKAuth crypto entries with
    | .ok auth => serverStart auth
    | .error err => failed err

def receive [DecidableEq Tag] : PSKRun Key → PSKSegment Tag → Outcome Key Tag
  | clientStart auth, io => sendClientHello auth io
  | clientAwait entry nonceC, io => finishClient crypto entry nonceC io
  | serverStart auth, io => sendServerProof crypto auth io
  | serverAwait entry nonceC nonceS, io => finishServer crypto entry nonceC nonceS io
  | run, _ => (run, .none)

end PSKRun

namespace PSKRun

variable {Key Tag : Type} (crypto : PSKCrypto Key Tag)

/-- The client opens with a hello that carries no code, or fails. -/
theorem sendClientHello_cases (auth : PSKAuth Key) (io : PSKSegment Tag) :
    (∃ error written, sendClientHello auth io = (failed error, ⟨written, []⟩) ∧
        ∀ message ∈ written, message.tags = []) ∨
      ∃ entry rest nonceC, auth.entries = entry :: rest ∧ io.rand = .ok nonceC ∧
        sendClientHello auth io =
          (clientAwait entry nonceC.1, ⟨[.clientHello nonceC.1 entry.label], []⟩) := by
  unfold sendClientHello
  split
  · exact .inl ⟨_, [], rfl, by simp⟩
  · next entry rest hentries =>
    split
    · exact .inl ⟨_, [], rfl, by simp⟩
    · next nonceC hrand =>
      split
      · exact .inl ⟨_, _, rfl, by simp [AuthMessage.tags]⟩
      · exact .inr ⟨entry, rest, nonceC, hentries, hrand, rfl⟩

theorem finishClient_cases [DecidableEq Tag] (entry : Entry Key) (nonceC : Bytes) (io : PSKSegment Tag) :
    (∃ error, finishClient crypto entry nonceC io = fail error) ∨
      ∃ nonceS result,
        io.read = .ok (.serverProof nonceS (mac crypto entry.key macLabelServer nonceC nonceS)) ∧
        nonceS.length = nonceSize ∧ (∀ identity, result = .ok identity → identity = entry.identity) ∧
        finishClient crypto entry nonceC io = (clientDone entry nonceC nonceS result,
          ⟨[.clientProof (mac crypto entry.key macLabelClient nonceS nonceC)],
            [(entry.key, macInput macLabelClient nonceS nonceC)]⟩) := by
  unfold finishClient
  split
  · exact .inl ⟨_, rfl⟩
  · next nonceS serverMac hread =>
    split_ifs with hlength hmac
    · exact .inl ⟨_, rfl⟩
    · exact .inl ⟨_, rfl⟩
    · rw [not_not] at hlength hmac
      subst hmac
      refine .inr ⟨nonceS, ?_⟩
      split
      · exact ⟨_, hread, hlength, by simp, rfl⟩
      · exact ⟨_, hread, hlength, by simp, rfl⟩
  · exact .inl ⟨_, rfl⟩

theorem sendServerProof_cases (auth : PSKAuth Key) (io : PSKSegment Tag) :
    (∃ error, sendServerProof crypto auth io = fail error) ∨
      ∃ nonceC hint entry nonceS run, io.read = .ok (.clientHello nonceC hint) ∧
        nonceC.length = nonceSize ∧ entry ∈ auth.entries ∧ io.rand = .ok nonceS ∧
        ((∃ error, run = failed error) ∨ run = serverAwait entry nonceC nonceS.1) ∧
        sendServerProof crypto auth io = (run,
          ⟨[.serverProof nonceS.1 (mac crypto entry.key macLabelServer nonceC nonceS.1)],
            [(entry.key, macInput macLabelServer nonceC nonceS.1)]⟩) := by
  unfold sendServerProof
  split
  · exact .inl ⟨_, rfl⟩
  · next nonceC hint hread =>
    split_ifs with hlength
    · exact .inl ⟨_, rfl⟩
    · rw [not_not] at hlength
      split
      · exact .inl ⟨_, rfl⟩
      · next entry hentry =>
        have hmem : entry ∈ auth.entries := List.mem_of_find?_eq_some hentry
        split
        · exact .inl ⟨_, rfl⟩
        · next nonceS hrand =>
          refine .inr ⟨nonceC, hint, entry, nonceS, ?_⟩
          split
          · exact ⟨_, hread, hlength, hmem, hrand, .inl ⟨_, rfl⟩, rfl⟩
          · exact ⟨_, hread, hlength, hmem, hrand, .inr rfl, rfl⟩
  · exact .inl ⟨_, rfl⟩

/-- The server accepts only the code over both nonces under the key that it chose. -/
theorem finishServer_cases [DecidableEq Tag] (entry : Entry Key) (nonceC nonceS : Bytes)
    (io : PSKSegment Tag) :
    (∃ error, finishServer crypto entry nonceC nonceS io = fail error) ∨
      (io.read = .ok (.clientProof (mac crypto entry.key macLabelClient nonceS nonceC)) ∧
        finishServer crypto entry nonceC nonceS io =
          (serverDone entry nonceC nonceS entry.identity, .none)) := by
  unfold finishServer
  split
  · exact .inl ⟨_, rfl⟩
  · next clientMac hread =>
    split_ifs with hmac
    · exact .inl ⟨_, rfl⟩
    · rw [not_not] at hmac
      subst hmac
      exact .inr ⟨hread, rfl⟩
  · exact .inl ⟨_, rfl⟩

end PSKRun

end Mosey.Auth
