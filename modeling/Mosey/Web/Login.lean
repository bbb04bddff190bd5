import Mathlib.Data.List.AList
import Mosey.Library.Machine
import Mosey.Auth.Wallet

/-!
# Wallet logins of the web gateway

A browser asks `/login/prepare` for a delegation text, hands the wallet's signature to
`/login/callback` and attaches with `/ws`. The three handlers share the map `logins` under a lock; each
login is an object that a handler can still hold after its entry was dropped. So a request is one step up
to the lookup of its token and another one after it, and between the two any other request may run.

The gateway is in its wallet-login mode. The strings of a request are lists of characters, as the JSON
decoder makes them. Random draws, the clock and the peer identity of a session key are the environment.
A transport is the client side of the handshake that it wraps around the gateway's one raw transport.
-/

namespace Mosey.Web

open Library Wallet Auth

abbrev Token := String

inductive HttpError
  | badRequest
  | badWallet
  | badSession
  | badSessionKey
  | badCaps
  | serverError
  | unknownToken
  | badSignature
  | notVerified
  | noLogin
  deriving DecidableEq

/-- The gateway's settings. Without `multiSession` there is a session key, read from an address or a key
file. -/
structure Gateway where
  multiSession : Bool
  sessionKey : PublicKey
  target : String
  delegationTTL : Time
  /-- The dial string of a session key. -/
  sessionTarget : PublicKey → Option String
  length_sessionKey : multiSession = false → sessionKey.length = publicKeySize

structure PrepareRequest where
  wallet : List Char
  caps : List Char
  session : List Char
  deriving DecidableEq

structure LoginSession (Private Signature : Type) where
  connKey : Private
  content : Bytes
  sessionKey : PublicKey
  target : String
  authed : Option (WalletClient Private Signature)
  expires : Time

/-- A login object with what its prepare request named and answered. -/
structure Login (Private Signature : Type) where
  token : Token
  request : PrepareRequest
  session : LoginSession Private Signature

/-- What a prepare request draws, and when it reads the clock. -/
structure Draw (Private : Type) where
  connKey : Private
  nonce : { bytes : Bytes // bytes.length = delegationNonceSize }
  now : Time
  token : Token

structure CallbackRequest (Signature : Type) where
  token : Token
  /-- The bytes that the base58 text stands for, if it is one. -/
  signature : Option Signature

def Login.setAuthed {Private Signature : Type} (authed : Option (WalletClient Private Signature))
    (login : Login Private Signature) : Login Private Signature :=
  { login with session := { login.session with authed } }

def minute : Time := 60 * nanosPerSecond

/-- The session that a login attaches to, and where it is dialled. -/
def Gateway.resolveSession (gateway : Gateway) (session : List Char) :
    Except HttpError (PublicKey × String) :=
  if gateway.multiSession then
    match parseAddress session with
    | .error _ => .error .badSession
    | .ok sessionKey =>
      match gateway.sessionTarget sessionKey with
      | none => .error .badSessionKey
      | some target => .ok (sessionKey, target)
  else .ok (gateway.sessionKey, gateway.target)

def requestedCaps (text : List Char) : Except HttpError Caps :=
  if text = [] then .ok 0
  else
    match parseCapsLenient text with
    | .error _ => .error .badCaps
    | .ok caps => .ok caps

section Handlers

variable {Private Signature : Type} (gateway : Gateway) (crypto : Ed25519 Private Signature)

/-- The login that a prepare request makes. A request that is no JSON is none, and so are draws that
failed. -/
def handleLoginPrepare (request : Option PrepareRequest) (draw : Option (Draw Private)) :
    Except HttpError (Login Private Signature) :=
  match request with
  | none => .error .badRequest
  | some request =>
    match parseAddress request.wallet with
    | .error _ => .error .badWallet
    | .ok delegator => do
      let (sessionKey, target) ← gateway.resolveSession request.session
      let caps ← requestedCaps request.caps
      match draw with
      | none => .error .serverError
      | some draw =>
        let fields : Fields :=
          ⟨sessionKey, delegator, crypto.publicKey draw.connKey, caps &&& ~~~capForge,
            draw.now - minute, draw.now + gateway.delegationTTL, draw.nonce.1⟩
        return ⟨draw.token, request, draw.connKey, fields.render, sessionKey, target, none,
          draw.now + gateway.delegationTTL⟩

/-- The rest of a callback after the lookup of its login. -/
def authenticate (session : LoginSession Private Signature) (signature : Option Signature) :
    Except HttpError (WalletClient Private Signature) :=
  match signature with
  | none => .error .badSignature
  | some signature =>
    if crypto.size signature ≠ signatureSize then .error .badSignature
    else
      let delegation : Delegation Signature := ⟨session.content, signature⟩
      match delegation.verify crypto with
      | .error _ => .error .notVerified
      | .ok _ =>
        match newWalletClientAuth ⟨session.connKey, [delegation], some session.sessionKey⟩ with
        | .error _ => .error .serverError
        | .ok client => .ok client

end Handlers

section Runs

variable (Private Signature : Type)

/-- A callback past its lookup. -/
structure PendingCallback where
  token : Token
  pointer : ℕ
  signature : Option Signature

/-- A request for `/ws` past its lookup. -/
structure PendingSocket where
  token : Token
  pointer : ℕ
  lookedUp : Time

/-- A request for `/ws` that runs an attach session. -/
structure Bridge where
  token : Token
  lookedUp : Time
  transport : WalletClient Private Signature
  target : String

structure WebRun where
  clock : Time
  /-- All login objects so far; a pointer is an index. -/
  issued : List (Login Private Signature)
  logins : AList fun _ : Token ↦ ℕ
  callbacks : List (PendingCallback Signature)
  sockets : List PendingSocket
  /-- The tokens and signatures of all callbacks so far. -/
  presented : List (Token × Signature)
  bridges : List (Bridge Private Signature)

inductive WebAction
  | wait (duration : ℕ)
  | prepare (request : Option PrepareRequest) (draw : Option (Draw Private))
  | callback (request : Option (CallbackRequest Signature))
  | authorize (index : ℕ)
  | ws (token : Token)
  | bridge (index : ℕ) (upgraded : Bool)

end Runs

namespace WebRun

variable {Private Signature : Type} (state : WebRun Private Signature)

def putLogin (login : Login Private Signature) : WebRun Private Signature :=
  { state with
    issued := state.issued ++ [login]
    logins := state.logins.insert login.token state.issued.length }

/-- The login of a token unless it has expired, in which case its entry is dropped. -/
def getLogin (token : Token) : WebRun Private Signature × Option ℕ :=
  match state.logins.lookup token with
  | none => (state, none)
  | some pointer =>
    match state.issued[pointer]? with
    | none => (state, none)
    | some login =>
      if login.session.expires < state.clock then
        ({ state with logins := state.logins.erase token }, none)
      else (state, some pointer)

def authorizeLogin (token : Token) (client : WalletClient Private Signature) :
    WebRun Private Signature :=
  match state.logins.lookup token with
  | none => state
  | some pointer => { state with issued := state.issued.modify pointer (.setAuthed (some client)) }

variable (gateway : Gateway) (crypto : Ed25519 Private Signature)

/-- What the rest of a callback answers. -/
def callbackResult (pending : PendingCallback Signature) :
    Except HttpError (WalletClient Private Signature) :=
  match state.issued[pending.pointer]? with
  | none => .error .unknownToken
  | some login => authenticate crypto login.session pending.signature

/-- The transport and the target of a request for `/ws`. -/
def socketResult (socket : PendingSocket) :
    Except HttpError (WalletClient Private Signature × String) :=
  match state.issued[socket.pointer]? with
  | none => .error .noLogin
  | some login =>
    match login.session.authed with
    | none => .error .noLogin
    | some client => .ok (client, login.session.target)

/-- A whole prepare request: what it reads besides its login does not change. -/
def prepare (request : Option PrepareRequest) (draw : Option (Draw Private)) : WebRun Private Signature :=
  match handleLoginPrepare gateway crypto request draw with
  | .error _ => state
  | .ok login => state.putLogin login

/-- `handleLoginCallback` up to the lookup. -/
def callback (request : Option (CallbackRequest Signature)) : WebRun Private Signature :=
  match request with
  | none => state
  | some request =>
    match state.getLogin request.token with
    | (looked, none) => looked
    | (looked, some pointer) =>
      { looked with
        callbacks := looked.callbacks ++ [⟨request.token, pointer, request.signature⟩]
        presented := looked.presented ++ (request.signature.map (request.token, ·)).toList }

/-- `handleLoginCallback` after the lookup. -/
def authorize (index : ℕ) : WebRun Private Signature :=
  match state.callbacks[index]? with
  | none => state
  | some pending =>
    let rest := { state with callbacks := state.callbacks.eraseIdx index }
    match state.callbackResult crypto pending with
    | .error _ => rest
    | .ok client => rest.authorizeLogin pending.token client

/-- `handleWS` up to the lookup. -/
def ws (token : Token) : WebRun Private Signature :=
  match state.getLogin token with
  | (looked, none) => looked
  | (looked, some pointer) =>
    { looked with sockets := looked.sockets ++ [⟨token, pointer, looked.clock⟩] }

/-- `handleWS` after the lookup, with whether the connection could be upgraded. -/
def bridge (index : ℕ) (upgraded : Bool) : WebRun Private Signature :=
  match state.sockets[index]? with
  | none => state
  | some socket =>
    let rest := { state with sockets := state.sockets.eraseIdx index }
    match state.socketResult socket with
    | .error _ => rest
    | .ok (transport, target) =>
      if upgraded then
        { rest with bridges := rest.bridges ++ [⟨socket.token, socket.lookedUp, transport, target⟩] }
      else rest

def step : WebAction Private Signature → WebRun Private Signature
  | .wait duration => { state with clock := state.clock + duration }
  | .prepare request draw => state.prepare gateway crypto request draw
  | .callback request => state.callback request
  | .authorize index => state.authorize crypto index
  | .ws token => state.ws token
  | .bridge index upgraded => state.bridge index upgraded

/-- Tokens are drawn fresh, and the clock was read before the login is stored. -/
def allowed : WebAction Private Signature → Prop
  | .prepare _ (some draw) => (∀ login ∈ state.issued, login.token ≠ draw.token) ∧ draw.now ≤ state.clock
  | _ => True

def machine (start : Time) : Machine (WebRun Private Signature) (WebAction Private Signature) where
  init := ⟨start, [], ∅, [], [], [], []⟩
  allowed := allowed
  step state := step state gateway crypto

end WebRun

end Mosey.Web
