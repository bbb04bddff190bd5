import Mosey.Wallet.Canonical
import Mosey.Web.Login

/-!
# What a web login is admitted with

A bridge of the gateway runs under the delegation that the wallet named in its own token's prepare
request signed, and requests with other tokens leave a login as it is.
-/

namespace Mosey.Web

open Library Wallet Auth

variable {Private Signature : Type} {gateway : Gateway}

theorem length_of_parseAddress {text : List Char} {key : PublicKey}
    (hparse : parseAddress text = .ok key) : key.length = publicKeySize := by
  unfold parseAddress at hparse
  split at hparse
  · cases hparse
  · split_ifs at hparse with hlength
    rw [← Except.ok.inj hparse]
    exact not_not.mp hlength

theorem length_of_resolveSession {session : List Char} {key : PublicKey} {target : String}
    (hresolve : gateway.resolveSession session = .ok (key, target)) : key.length = publicKeySize := by
  unfold Gateway.resolveSession at hresolve
  split_ifs at hresolve with hmulti
  · split at hresolve
    · cases hresolve
    · next parsed hparsed =>
      split at hresolve
      · cases hresolve
      · cases hresolve
        exact length_of_parseAddress hparsed
  · cases hresolve
    exact gateway.length_sessionKey (by simpa using hmulti)

/-- Only known capabilities can be asked for. -/
theorem requestedCaps_subset {text : List Char} {caps : Caps} (hcaps : requestedCaps text = .ok caps) :
    caps.subset allCaps = true := by
  unfold requestedCaps at hcaps
  split_ifs at hcaps
  · rw [← Except.ok.inj hcaps]
    decide
  · split at hcaps
    · cases hcaps
    · next parsed hparsed =>
      rw [← Except.ok.inj hcaps]
      exact parseCapsLenient_subset hparsed

/-- Capabilities without the right to delegate further. -/
theorem withoutForge (caps : Caps) :
    Caps.has (caps &&& ~~~capForge) capForge = false ∧ Caps.subset (caps &&& ~~~capForge) caps = true := by
  revert caps
  decide +kernel

/-- The login was prepared for this wallet and these capabilities, with a text of these fields. -/
structure Login.Prepared (login : Login Private Signature) (gateway : Gateway)
    (crypto : Ed25519 Private Signature) (wallet : PublicKey) (requested : Caps) (fields : Fields) :
    Prop where
  wallet_eq : parseAddress login.request.wallet = .ok wallet
  session_eq : gateway.resolveSession login.request.session =
    .ok (login.session.sessionKey, login.session.target)
  caps_eq : requestedCaps login.request.caps = .ok requested
  content_eq : login.session.content = fields.render
  sized : fields.Sized
  sessionID_eq : fields.sessionID = login.session.sessionKey
  delegator_eq : fields.delegator = wallet
  delegate_eq : fields.delegate = crypto.publicKey login.session.connKey
  fieldCaps_eq : fields.caps = requested &&& ~~~capForge

variable {crypto : Ed25519 Private Signature}

theorem Login.Prepared.setAuthed {wallet : PublicKey} {requested : Caps} {fields : Fields}
    {login : Login Private Signature}
    (hprepared : login.Prepared gateway crypto wallet requested fields)
    (authed : Option (WalletClient Private Signature)) :
    (login.setAuthed authed).Prepared gateway crypto wallet requested fields :=
  { hprepared with }

/-- What a prepared login holds. -/
theorem prepared_of_handleLoginPrepare {request : Option PrepareRequest} {draw : Option (Draw Private)}
    {login : Login Private Signature}
    (hprepare : handleLoginPrepare gateway crypto request draw = .ok login) :
    (∃ wallet requested fields, login.Prepared gateway crypto wallet requested fields) ∧
      login.session.authed = none ∧ ∃ drawn, draw = some drawn ∧ login.token = drawn.token := by
  unfold handleLoginPrepare at hprepare
  split at hprepare
  · cases hprepare
  · next request =>
    split at hprepare
    · cases hprepare
    · next wallet hwallet =>
      obtain ⟨⟨sessionKey, target⟩, hsession, hprepare⟩ := bind_eq_ok.mp hprepare
      obtain ⟨requested, hcaps, hprepare⟩ := bind_eq_ok.mp hprepare
      cases draw with
      | none => cases hprepare
      | some drawn =>
        obtain rfl := Except.ok.inj hprepare
        refine ⟨⟨wallet, requested, _, hwallet, hsession, hcaps, rfl, ?_, rfl, rfl, rfl, rfl⟩, rfl,
          drawn, rfl, rfl⟩
        have hsubset := Caps.subset_trans (withoutForge requested).2 (requestedCaps_subset hcaps)
        exact ⟨length_of_resolveSession hsession, length_of_parseAddress hwallet,
          crypto.length_publicKey _, hsubset, drawn.nonce.2⟩

/-- What a verified callback sets. -/
theorem of_authenticate {session : LoginSession Private Signature} {signature : Option Signature}
    {client : WalletClient Private Signature}
    (hauthenticate : authenticate crypto session signature = .ok client) :
    ∃ given, signature = some given ∧
      (∃ fields, Delegation.verify crypto ⟨session.content, given⟩ = .ok fields) ∧
      client = ⟨session.connKey, [⟨session.content, given⟩], some session.sessionKey⟩ := by
  unfold authenticate at hauthenticate
  split at hauthenticate
  · cases hauthenticate
  · next given =>
    split_ifs at hauthenticate
    dsimp only at hauthenticate
    split at hauthenticate
    · cases hauthenticate
    · next fields hverify =>
      exact ⟨given, rfl, ⟨fields, hverify⟩, (Except.ok.inj hauthenticate).symm⟩

/-- The signature of the wallet that a canonical text names is accepted. -/
theorem authenticate_sign {session : LoginSession Private Signature} {fields : Fields}
    (hcontent : session.content = fields.render) (hcanonical : fields.Canonical) {secret : Private}
    (hdelegator : fields.delegator = crypto.publicKey secret) :
    authenticate crypto session (some (crypto.sign secret session.content)) =
      .ok ⟨session.connKey, [⟨session.content, crypto.sign secret session.content⟩],
        some session.sessionKey⟩ := by
  have hparse : parseContent session.content = .ok fields :=
    parseContent_eq_ok.mpr ⟨hcanonical, hcontent⟩
  have hsize := crypto.size_sign secret session.content
  have hsigned : crypto.verify fields.delegator session.content
      (crypto.sign secret session.content) = true := by
    rw [hdelegator]
    exact crypto.verify_sign secret session.content
  have hverify : Delegation.verify crypto
      ⟨session.content, crypto.sign secret session.content⟩ = .ok fields := by
    simp [Delegation.verify, Delegation.fields, hparse, hcanonical.delegator, hsize, hsigned]
  unfold authenticate
  dsimp only
  rw [if_neg (not_not.mpr hsize), hverify]
  rfl

/-! ## The steps -/

namespace WebRun

variable {state : WebRun Private Signature} {crypto : Ed25519 Private Signature} {token : Token}

/-- What a lookup of a token finds. -/
inductive LookedUp (state : WebRun Private Signature) (token : Token) :
    WebRun Private Signature × Option ℕ → Prop
  | unknown : LookedUp state token (state, none)
  | expired : LookedUp state token ({ state with logins := state.logins.erase token }, none)
  | found {pointer : ℕ} {login : Login Private Signature}
    (hlookup : state.logins.lookup token = some pointer) (hlogin : state.issued[pointer]? = some login)
    (hunexpired : state.clock ≤ login.session.expires) : LookedUp state token (state, some pointer)

/-- What a lookup can find, and what it drops. -/
theorem lookedUp_getLogin (state : WebRun Private Signature) (token : Token) :
    LookedUp state token (state.getLogin token) := by
  unfold getLogin
  split
  · exact .unknown
  · next pointer hlookup =>
    split
    · exact .unknown
    · next login hlogin =>
      split_ifs with hexpired
      · exact .expired
      · exact .found hlookup hlogin (Int.not_lt.mp hexpired)

/-- What an action can do. -/
inductive Change (state : WebRun Private Signature) (gateway : Gateway)
    (crypto : Ed25519 Private Signature) : WebAction Private Signature → WebRun Private Signature → Prop
  | unchanged {action : WebAction Private Signature} : Change state gateway crypto action state
  | wait {duration : ℕ} :
    Change state gateway crypto (.wait duration) { state with clock := state.clock + duration }
  | issued {request : Option PrepareRequest} {drawn : Draw Private} {login : Login Private Signature}
    (hprepared : ∃ wallet requested fields, login.Prepared gateway crypto wallet requested fields)
    (hauthed : login.session.authed = none) (htoken : login.token = drawn.token) :
    Change state gateway crypto (.prepare request (some drawn)) (state.putLogin login)
  | droppedByCallback {request : CallbackRequest Signature} :
    Change state gateway crypto (.callback (some request))
      { state with logins := state.logins.erase request.token }
  | called {request : CallbackRequest Signature} {pointer : ℕ}
    (hlookup : state.logins.lookup request.token = some pointer) :
    Change state gateway crypto (.callback (some request))
      { state with
        callbacks := state.callbacks ++ [⟨request.token, pointer, request.signature⟩]
        presented := state.presented ++ (request.signature.map (request.token, ·)).toList }
  | refused {index : ℕ} : Change state gateway crypto (.authorize index)
      { state with callbacks := state.callbacks.eraseIdx index }
  | authorized {index : ℕ} {pending : PendingCallback Signature} {login : Login Private Signature}
    {client : WalletClient Private Signature} (hpending : state.callbacks[index]? = some pending)
    (hlogin : state.issued[pending.pointer]? = some login)
    (hauthenticate : authenticate crypto login.session pending.signature = .ok client) :
    Change state gateway crypto (.authorize index)
      (authorizeLogin { state with callbacks := state.callbacks.eraseIdx index } pending.token client)
  | droppedBySocket {token : Token} :
    Change state gateway crypto (.ws token) { state with logins := state.logins.erase token }
  | opened {token : Token} {pointer : ℕ} {login : Login Private Signature}
    (hlookup : state.logins.lookup token = some pointer) (hlogin : state.issued[pointer]? = some login)
    (hunexpired : state.clock ≤ login.session.expires) : Change state gateway crypto (.ws token)
      { state with sockets := state.sockets ++ [⟨token, pointer, state.clock⟩] }
  | closed {index : ℕ} {upgraded : Bool} : Change state gateway crypto (.bridge index upgraded)
      { state with sockets := state.sockets.eraseIdx index }
  | bridged {index : ℕ} {upgraded : Bool} {socket : PendingSocket} {login : Login Private Signature}
    {client : WalletClient Private Signature} (hsocket : state.sockets[index]? = some socket)
    (hlogin : state.issued[socket.pointer]? = some login) (hauthed : login.session.authed = some client) :
    Change state gateway crypto (.bridge index upgraded)
      { state with
        sockets := state.sockets.eraseIdx index
        bridges := state.bridges ++ [⟨socket.token, socket.lookedUp, client, login.session.target⟩] }

/-- What each request can do. -/
theorem change_step (state : WebRun Private Signature) (gateway : Gateway)
    (crypto : Ed25519 Private Signature) (action : WebAction Private Signature) :
    Change state gateway crypto action (state.step gateway crypto action) := by
  cases action with
  | wait duration => exact .wait
  | prepare request draw =>
    change Change state gateway crypto _ (state.prepare gateway crypto request draw)
    unfold prepare
    split
    · exact .unchanged
    · next login hlogin =>
      obtain ⟨hprepared, hauthed, drawn, rfl, htoken⟩ := prepared_of_handleLoginPrepare hlogin
      exact .issued hprepared hauthed htoken
  | callback request =>
    change Change state gateway crypto _ (state.callback request)
    unfold callback
    cases request with
    | none => exact .unchanged
    | some request =>
      have hlooked := lookedUp_getLogin state request.token
      dsimp only
      generalize state.getLogin request.token = result at hlooked
      cases hlooked with
      | unknown => exact .unchanged
      | expired => exact .droppedByCallback
      | found hlookup => exact .called hlookup
  | authorize index =>
    change Change state gateway crypto _ (state.authorize crypto index)
    unfold authorize callbackResult
    split
    · exact .unchanged
    · next pending hpending =>
      dsimp only
      cases hlogin : state.issued[pending.pointer]? with
      | none => exact .refused
      | some login =>
        dsimp only
        cases hauthenticate : authenticate crypto login.session pending.signature with
        | error err => exact .refused
        | ok client => exact .authorized hpending hlogin hauthenticate
  | ws token =>
    change Change state gateway crypto _ (state.ws token)
    unfold ws
    have hlooked := lookedUp_getLogin state token
    generalize state.getLogin token = result at hlooked
    cases hlooked with
    | unknown => exact .unchanged
    | expired => exact .droppedBySocket
    | found hlookup hlogin hunexpired => exact .opened hlookup hlogin hunexpired
  | bridge index upgraded =>
    change Change state gateway crypto _ (state.bridge index upgraded)
    unfold bridge socketResult
    split
    · exact .unchanged
    · next socket hsocket =>
      dsimp only
      cases hlogin : state.issued[socket.pointer]? with
      | none => exact .closed
      | some login =>
        dsimp only
        cases hauthed : login.session.authed with
        | none => exact .closed
        | some client =>
          dsimp only
          split_ifs
          · exact .bridged hsocket hlogin hauthed
          · exact .closed

/-- The transport was authenticated by a signature over the content of the token's login. -/
def Admitted (state : WebRun Private Signature) (crypto : Ed25519 Private Signature)
    (bridge : Bridge Private Signature) : Prop :=
  ∃ login ∈ state.issued, login.token = bridge.token ∧ bridge.lookedUp ≤ login.session.expires ∧
    bridge.target = login.session.target ∧ ∃ signature, (bridge.token, signature) ∈ state.presented ∧
      authenticate crypto login.session (some signature) = .ok bridge.transport

structure Sound (state : WebRun Private Signature) (gateway : Gateway)
    (crypto : Ed25519 Private Signature) : Prop where
  prepared : ∀ login ∈ state.issued,
    ∃ wallet requested fields, login.Prepared gateway crypto wallet requested fields
  unique : ∀ {first second : ℕ} {login other : Login Private Signature},
    state.issued[first]? = some login → state.issued[second]? = some other →
      login.token = other.token → first = second
  authentic : ∀ login ∈ state.issued, ∀ client, login.session.authed = some client →
    ∃ signature, (login.token, signature) ∈ state.presented ∧
      authenticate crypto login.session (some signature) = .ok client
  mapped : ∀ {token pointer}, state.logins.lookup token = some pointer →
    ∃ login, state.issued[pointer]? = some login ∧ login.token = token
  callbacks : ∀ pending ∈ state.callbacks,
    (∃ login, state.issued[pending.pointer]? = some login ∧ login.token = pending.token) ∧
      ∀ signature ∈ pending.signature, (pending.token, signature) ∈ state.presented
  sockets : ∀ socket ∈ state.sockets, ∃ login, state.issued[socket.pointer]? = some login ∧
    login.token = socket.token ∧ socket.lookedUp ≤ login.session.expires
  bridges : ∀ bridge ∈ state.bridges, state.Admitted crypto bridge

/-- What later states keep: login objects up to their transport, and the signatures received. -/
structure Grows (before after : WebRun Private Signature) : Prop where
  issued : ∀ {index : ℕ} {login : Login Private Signature}, before.issued[index]? = some login →
    ∃ authed, after.issued[index]? = some (login.setAuthed authed)
  presented : before.presented ⊆ after.presented

variable {before after : WebRun Private Signature} {login : Login Private Signature}
  {client : WalletClient Private Signature}

theorem Grows.of_issued_eq (hissued : after.issued = before.issued)
    (hpresented : before.presented ⊆ after.presented) : Grows before after := by
  refine ⟨?_, hpresented⟩
  intro index login hlogin
  exact ⟨login.session.authed, by rw [hissued, hlogin]; rfl⟩

/-- Whoever is admitted stays so. -/
theorem Grows.admitted (hgrows : Grows before after) {bridge : Bridge Private Signature}
    (hadmitted : before.Admitted crypto bridge) : after.Admitted crypto bridge := by
  obtain ⟨login, hlogin, htoken, htime, htarget, signature, hsignature, hauthenticate⟩ := hadmitted
  obtain ⟨index, hindex⟩ := List.mem_iff_getElem?.mp hlogin
  obtain ⟨authed, hafter⟩ := hgrows.issued hindex
  exact ⟨_, List.mem_of_getElem? hafter, htoken, htime, htarget, signature,
    hgrows.presented hsignature, hauthenticate⟩

theorem of_pointer {pointer : ℕ} {P : Login Private Signature → Prop}
    (hpointer : ∃ login, state.issued[pointer]? = some login ∧ P login)
    (hlogin : state.issued[pointer]? = some login) : P login := by
  obtain ⟨owner, howner, hproperty⟩ := hpointer
  rw [hlogin] at howner
  rwa [Option.some.inj howner]

/-- A pointer to a login of a token stays one. -/
theorem Grows.pointer (hgrows : Grows before after) {pointer : ℕ}
    (hpointer : ∃ login, before.issued[pointer]? = some login ∧ login.token = token) :
    ∃ login, after.issued[pointer]? = some login ∧ login.token = token := by
  obtain ⟨login, hlogin, htoken⟩ := hpointer
  obtain ⟨authed, hafter⟩ := hgrows.issued hlogin
  exact ⟨_, hafter, htoken⟩

theorem Grows.socket (hgrows : Grows before after) {socket : PendingSocket}
    (hsocket : ∃ login, before.issued[socket.pointer]? = some login ∧
      login.token = socket.token ∧ socket.lookedUp ≤ login.session.expires) :
    ∃ login, after.issued[socket.pointer]? = some login ∧ login.token = socket.token ∧
      socket.lookedUp ≤ login.session.expires := by
  obtain ⟨login, hlogin, htoken, htime⟩ := hsocket
  obtain ⟨authed, hafter⟩ := hgrows.issued hlogin
  exact ⟨_, hafter, htoken, htime⟩

/-- What points to logins in the later state did so before, or was right then. -/
structure Points (crypto : Ed25519 Private Signature) (state after : WebRun Private Signature) : Prop where
  callbacks : ∀ pending ∈ after.callbacks, pending ∈ state.callbacks ∨
    (∃ login, state.issued[pending.pointer]? = some login ∧ login.token = pending.token) ∧
      ∀ signature ∈ pending.signature, (pending.token, signature) ∈ after.presented
  sockets : ∀ socket ∈ after.sockets, socket ∈ state.sockets ∨
    ∃ login, state.issued[socket.pointer]? = some login ∧ login.token = socket.token ∧
      socket.lookedUp ≤ login.session.expires
  bridges : ∀ bridge ∈ after.bridges, bridge ∈ state.bridges ∨ state.Admitted crypto bridge

/-- Where the logins of the later state are right, it is enough that what points to them is old or was
right before. -/
theorem Sound.of_grows {after : WebRun Private Signature} (hsound : state.Sound gateway crypto)
    (hgrows : Grows state after)
    (hprepared : ∀ login ∈ after.issued,
      ∃ wallet requested fields, login.Prepared gateway crypto wallet requested fields)
    (hunique : ∀ {first second : ℕ} {login other : Login Private Signature},
      after.issued[first]? = some login → after.issued[second]? = some other →
        login.token = other.token → first = second)
    (hauthentic : ∀ login ∈ after.issued, ∀ client, login.session.authed = some client →
      ∃ signature, (login.token, signature) ∈ after.presented ∧
        authenticate crypto login.session (some signature) = .ok client)
    (hmapped : ∀ token pointer, after.logins.lookup token = some pointer →
      state.logins.lookup token = some pointer ∨
        ∃ login, after.issued[pointer]? = some login ∧ login.token = token)
    (hpoints : Points crypto state after) :
    after.Sound gateway crypto where
  prepared := hprepared
  unique := hunique
  authentic := hauthentic
  mapped {token pointer} hlookup := by
    rcases hmapped token pointer hlookup with hold | hnew
    · exact hgrows.pointer (hsound.mapped hold)
    · exact hnew
  callbacks pending hpending := by
    rcases hpoints.callbacks pending hpending with hold | ⟨hlogin, hsignature⟩
    · obtain ⟨hlogin, hsignature⟩ := hsound.callbacks pending hold
      exact ⟨hgrows.pointer hlogin, fun signature hgiven ↦
        hgrows.presented (hsignature signature hgiven)⟩
    · exact ⟨hgrows.pointer hlogin, hsignature⟩
  sockets socket hsocket := by
    rcases hpoints.sockets socket hsocket with hold | hnew
    · exact hgrows.socket (hsound.sockets socket hold)
    · exact hgrows.socket hnew
  bridges bridge hbridge := by
    rcases hpoints.bridges bridge hbridge with hold | hnew
    · exact hgrows.admitted (hsound.bridges bridge hold)
    · exact hgrows.admitted hnew

/-- A step that issues and authorizes nothing. -/
theorem Sound.of_issued_eq {after : WebRun Private Signature} (hsound : state.Sound gateway crypto)
    (hissued : after.issued = state.issued) (hpresented : state.presented ⊆ after.presented)
    (hmapped : ∀ token pointer, after.logins.lookup token = some pointer →
      state.logins.lookup token = some pointer)
    (hpoints : Points crypto state after) :
    after.Sound gateway crypto := by
  refine hsound.of_grows (.of_issued_eq hissued hpresented) ?_ ?_ ?_
    (fun token pointer hlookup ↦ .inl (hmapped token pointer hlookup)) hpoints
  · rw [hissued]
    exact hsound.prepared
  · rw [hissued]
    exact hsound.unique
  · intro login hlogin client hauthed
    rw [hissued] at hlogin
    obtain ⟨signature, hsignature, hauthenticate⟩ := hsound.authentic login hlogin client hauthed
    exact ⟨signature, hpresented hsignature, hauthenticate⟩

/-- A login that is dropped takes nothing with it. -/
theorem Sound.dropLogin (hsound : state.Sound gateway crypto) (token : Token) :
    Sound { state with logins := state.logins.erase token } gateway crypto := by
  refine hsound.of_issued_eq rfl (List.Subset.refl _) ?_ ⟨fun _ ↦ .inl, fun _ ↦ .inl, fun _ ↦ .inl⟩
  intro other pointer hlookup
  by_cases heq : other = token
  · rw [heq, AList.lookup_erase] at hlookup
    cases hlookup
  · rwa [AList.lookup_erase_ne heq] at hlookup

theorem Sound.eraseCallback (hsound : state.Sound gateway crypto) (index : ℕ) :
    Sound { state with callbacks := state.callbacks.eraseIdx index } gateway crypto := by
  refine hsound.of_issued_eq rfl (List.Subset.refl _) (fun _ _ ↦ id) ⟨?_, fun _ ↦ .inl, fun _ ↦ .inl⟩
  intro pending hpending
  exact .inl (List.mem_of_mem_eraseIdx hpending)

theorem Sound.eraseSocket (hsound : state.Sound gateway crypto) (index : ℕ) :
    Sound { state with sockets := state.sockets.eraseIdx index } gateway crypto := by
  refine hsound.of_issued_eq rfl (List.Subset.refl _) (fun _ _ ↦ id) ⟨fun _ ↦ .inl, ?_, fun _ ↦ .inl⟩
  intro socket hsocket
  exact .inl (List.mem_of_mem_eraseIdx hsocket)

theorem grows_putLogin (state : WebRun Private Signature) (login : Login Private Signature) :
    Grows state (state.putLogin login) := by
  refine ⟨?_, List.Subset.refl _⟩
  intro index other hother
  exact ⟨other.session.authed, getElem?_append_of_eq_some hother [login]⟩

theorem lookup_putLogin {pointer : ℕ}
    (hlookup : (state.putLogin login).logins.lookup token = some pointer) :
    state.logins.lookup token = some pointer ∨ token = login.token ∧ pointer = state.issued.length := by
  by_cases heq : token = login.token
  · subst heq
    refine .inr ⟨rfl, ?_⟩
    rw [putLogin, AList.lookup_insert] at hlookup
    exact (Option.some.inj hlookup).symm
  · rw [putLogin, AList.lookup_insert_ne heq] at hlookup
    exact .inl hlookup

/-- A prepared login under a fresh token keeps the state sound. -/
theorem Sound.putLogin (hsound : state.Sound gateway crypto)
    (hprepared : ∃ wallet requested fields, login.Prepared gateway crypto wallet requested fields)
    (hauthed : login.session.authed = none) (hfresh : ∀ other ∈ state.issued, other.token ≠ login.token) :
    (state.putLogin login).Sound gateway crypto := by
  refine hsound.of_grows (grows_putLogin state login) ?_ ?_ ?_ ?_
    ⟨fun _ ↦ .inl, fun _ ↦ .inl, fun _ ↦ .inl⟩
  · intro other hother
    rcases List.mem_append.mp hother with hother | hother
    · exact hsound.prepared other hother
    · rwa [List.mem_singleton.mp hother]
  · intro first second one other hone hother htoken
    rcases getElem?_concat_eq_some.mp hone with hbefore | ⟨rfl, rfl⟩
    · rcases getElem?_concat_eq_some.mp hother with hbefore' | ⟨rfl, rfl⟩
      · exact hsound.unique hbefore hbefore' htoken
      · exact absurd htoken (hfresh one (List.mem_of_getElem? hbefore))
    · rcases getElem?_concat_eq_some.mp hother with hbefore | ⟨rfl, _⟩
      · exact absurd htoken.symm (hfresh other (List.mem_of_getElem? hbefore))
      · rfl
  · intro other hother client hclient
    rcases List.mem_append.mp hother with hother | hother
    · exact hsound.authentic other hother client hclient
    · rw [List.mem_singleton.mp hother, hauthed] at hclient
      cases hclient
  · intro token pointer hlookup
    rcases lookup_putLogin hlookup with hbefore | ⟨rfl, rfl⟩
    · exact .inl hbefore
    · exact .inr ⟨login, List.getElem?_concat_length, rfl⟩

theorem grows_setAuthed (state : WebRun Private Signature) (pointer : ℕ)
    (client : WalletClient Private Signature) :
    Grows state { state with issued := state.issued.modify pointer (.setAuthed (some client)) } := by
  refine ⟨?_, (List.Subset.refl _)⟩
  intro index login hlogin
  change ∃ authed, (state.issued.modify pointer (.setAuthed (some client)))[index]? = _
  rw [List.getElem?_modify]
  split
  · exact ⟨some client, by rw [hlogin]; rfl⟩
  · exact ⟨login.session.authed, by rw [hlogin]; rfl⟩

theorem token_of_setAuthed {pointer index : ℕ}
    (hlogin : (state.issued.modify pointer (.setAuthed (some client)))[index]? = some login) :
    ∃ before, state.issued[index]? = some before ∧ before.token = login.token := by
  rw [List.getElem?_modify] at hlogin
  obtain ⟨before, hbefore, rfl⟩ := Option.map_eq_some_iff.mp hlogin
  refine ⟨before, hbefore, ?_⟩
  split <;> rfl

/-- An authenticated transport is stored in the login whose content was signed. -/
theorem Sound.authorizeLogin (hsound : state.Sound gateway crypto) {signature : Signature}
    (hpresented : (token, signature) ∈ state.presented)
    (hauthenticate : ∀ login ∈ state.issued, login.token = token →
      authenticate crypto login.session (some signature) = .ok client) :
    (state.authorizeLogin token client).Sound gateway crypto := by
  unfold WebRun.authorizeLogin
  split
  · exact hsound
  · next pointer hlookup =>
    obtain ⟨owner, howner, htoken⟩ := hsound.mapped hlookup
    have hmem := List.mem_of_getElem? howner
    have hissued {login : Login Private Signature}
        (hlogin : login ∈ state.issued.modify pointer (.setAuthed (some client))) :
        login ∈ state.issued ∨ login = owner.setAuthed (some client) := by
      rcases mem_modify hlogin with hlogin | ⟨before, hbefore, rfl⟩
      · exact .inl hlogin
      · rw [howner] at hbefore
        rw [Option.some.inj hbefore]
        exact .inr rfl
    refine hsound.of_grows (grows_setAuthed state pointer client) ?_ ?_ ?_ (fun _ _ ↦ .inl)
      ⟨fun _ ↦ .inl, fun _ ↦ .inl, fun _ ↦ .inl⟩
    · intro login hlogin
      rcases hissued hlogin with hlogin | rfl
      · exact hsound.prepared login hlogin
      · obtain ⟨wallet, requested, fields, hprepared⟩ := hsound.prepared owner hmem
        exact ⟨wallet, requested, fields, hprepared.setAuthed _⟩
    · intro first second one other hone hother hequal
      obtain ⟨before, hbefore, hone⟩ := token_of_setAuthed hone
      obtain ⟨before', hbefore', hother⟩ := token_of_setAuthed hother
      exact hsound.unique hbefore hbefore' (by rw [hone, hother, hequal])
    · intro login hlogin held hheld
      rcases hissued hlogin with hlogin | rfl
      · exact hsound.authentic login hlogin held hheld
      · obtain rfl := Option.some.inj hheld
        refine ⟨signature, ?_, hauthenticate owner hmem htoken⟩
        change (owner.token, signature) ∈ state.presented
        rwa [htoken]

theorem Sound.called (hsound : state.Sound gateway crypto) {request : CallbackRequest Signature}
    {pointer : ℕ} (hlookup : state.logins.lookup request.token = some pointer) :
    Sound { state with
      callbacks := state.callbacks ++ [⟨request.token, pointer, request.signature⟩]
      presented := state.presented ++ (request.signature.map (request.token, ·)).toList }
      gateway crypto := by
  refine hsound.of_issued_eq rfl (List.subset_append_left _ _) (fun _ _ ↦ id)
    ⟨?_, fun _ ↦ .inl, fun _ ↦ .inl⟩
  intro pending hpending
  rcases List.mem_append.mp hpending with hpending | hpending
  · exact .inl hpending
  · obtain rfl := List.mem_singleton.mp hpending
    refine .inr ⟨hsound.mapped hlookup, ?_⟩
    intro signature hsignature
    have hgiven : request.signature = some signature := hsignature
    apply List.mem_append_right
    rw [hgiven]
    exact List.mem_singleton_self _

/-- A callback that passes the check authorizes the login it was made for. -/
theorem Sound.authorized (hsound : state.Sound gateway crypto) {index : ℕ}
    {pending : PendingCallback Signature} (hpending : state.callbacks[index]? = some pending)
    (hlogin : state.issued[pending.pointer]? = some login)
    (hauthenticate : authenticate crypto login.session pending.signature = .ok client) :
    (WebRun.authorizeLogin { state with callbacks := state.callbacks.eraseIdx index } pending.token
      client).Sound gateway crypto := by
  obtain ⟨howner, hpresented⟩ := hsound.callbacks pending (List.mem_of_getElem? hpending)
  have htoken := of_pointer howner hlogin
  obtain ⟨signature, hsignature, _⟩ := of_authenticate hauthenticate
  rw [hsignature] at hauthenticate
  refine (hsound.eraseCallback index).authorizeLogin (hpresented signature hsignature) ?_
  intro other hother hequal
  -- the token has one login, so the one that was signed is the one that is authorized
  obtain ⟨position, hposition⟩ := List.mem_iff_getElem?.mp hother
  have hsame := hsound.unique hposition hlogin (by rw [hequal, htoken])
  rw [hsame, hlogin] at hposition
  rwa [← Option.some.inj hposition]

/-- A socket is opened under a login that has not expired. -/
theorem Sound.opened (hsound : state.Sound gateway crypto) {pointer : ℕ}
    (hlookup : state.logins.lookup token = some pointer) (hlogin : state.issued[pointer]? = some login)
    (hunexpired : state.clock ≤ login.session.expires) :
    Sound { state with sockets := state.sockets ++ [⟨token, pointer, state.clock⟩] } gateway crypto := by
  refine hsound.of_issued_eq rfl (List.Subset.refl _) (fun _ _ ↦ id) ⟨fun _ ↦ .inl, ?_, fun _ ↦ .inl⟩
  intro socket hsocket
  rcases List.mem_append.mp hsocket with hsocket | hsocket
  · exact .inl hsocket
  · obtain rfl := List.mem_singleton.mp hsocket
    exact .inr ⟨login, hlogin, of_pointer (hsound.mapped hlookup) hlogin, hunexpired⟩

/-- A bridge is opened with the client of the socket's own login. -/
theorem Sound.bridged (hsound : state.Sound gateway crypto) {index : ℕ} {socket : PendingSocket}
    (hsocket : state.sockets[index]? = some socket)
    (hlogin : state.issued[socket.pointer]? = some login) (hauthed : login.session.authed = some client) :
    Sound { state with
      sockets := state.sockets.eraseIdx index
      bridges := state.bridges ++ [⟨socket.token, socket.lookedUp, client, login.session.target⟩] }
      gateway crypto := by
  refine (hsound.eraseSocket index).of_issued_eq rfl (List.Subset.refl _) (fun _ _ ↦ id)
    ⟨fun _ ↦ .inl, fun _ ↦ .inl, ?_⟩
  intro bridge hbridge
  rcases List.mem_append.mp hbridge with hbridge | hbridge
  · exact .inl hbridge
  · obtain rfl := List.mem_singleton.mp hbridge
    have hmem := List.mem_of_getElem? hlogin
    obtain ⟨htoken, htime⟩ := of_pointer (hsound.sockets socket (List.mem_of_getElem? hsocket)) hlogin
    obtain ⟨signature, hsignature, hauthenticate⟩ := hsound.authentic login hmem client hauthed
    rw [htoken] at hsignature
    exact .inr ⟨login, hmem, htoken, htime, rfl, signature, hsignature, hauthenticate⟩

theorem Sound.step (hsound : state.Sound gateway crypto) {action : WebAction Private Signature}
    (hallowed : state.allowed action) : (state.step gateway crypto action).Sound gateway crypto := by
  have hchange := change_step state gateway crypto action
  generalize state.step gateway crypto action = next at hchange
  cases hchange with
  | unchanged => exact hsound
  | wait =>
    exact hsound.of_issued_eq rfl (List.Subset.refl _) (fun _ _ ↦ id)
      ⟨fun _ ↦ .inl, fun _ ↦ .inl, fun _ ↦ .inl⟩
  | issued hprepared hauthed htoken =>
    apply hsound.putLogin hprepared hauthed
    rw [htoken]
    exact hallowed.1
  | @droppedByCallback request => exact hsound.dropLogin request.token
  | called hlookup => exact hsound.called hlookup
  | @refused index => exact hsound.eraseCallback index
  | authorized hpending hlogin hauthenticate => exact hsound.authorized hpending hlogin hauthenticate
  | @droppedBySocket token => exact hsound.dropLogin token
  | opened hlookup hlogin hunexpired => exact hsound.opened hlookup hlogin hunexpired
  | @closed index => exact hsound.eraseSocket index
  | bridged hsocket hlogin hauthed => exact hsound.bridged hsocket hlogin hauthed

/-- The state is sound after any requests. -/
theorem sound_of_reachable {start : Time}
    (hreach : (machine gateway crypto start).Reachable state) : state.Sound gateway crypto := by
  apply hreach.invariant
  · constructor
    · simp [machine]
    · simp [machine]
    · simp [machine]
    · simp [machine]
    · simp [machine]
    · simp [machine]
    · simp [machine]
  · intro before action _ hsound hallowed
    exact hsound.step hallowed

/-! ## Admission -/

end WebRun

/-- How a bridge came about: the login of its token, the wallet that the login names, the capabilities
that it asks for, the wallet's signature and the fields of the text that was signed. -/
structure Admission (state : WebRun Private Signature) (gateway : Gateway)
    (crypto : IdealEd25519 Private Signature) (bridge : Bridge Private Signature) where
  login : Login Private Signature
  wallet : PublicKey
  requested : Caps
  signature : Signature
  fields : Fields
  issued : login ∈ state.issued
  token_eq : login.token = bridge.token
  only_login : ∀ other ∈ state.issued, other.token = bridge.token → other = login
  wallet_eq : parseAddress login.request.wallet = .ok wallet
  presented : (bridge.token, signature) ∈ state.presented
  signed : crypto.verify wallet login.session.content signature = true
  only_signed : ∀ key content, crypto.verify key content signature = true →
    key = wallet ∧ content = login.session.content
  unexpired : bridge.lookedUp ≤ login.session.expires
  transport_eq : bridge.transport =
    ⟨login.session.connKey, [⟨login.session.content, signature⟩], some login.session.sessionKey⟩
  target_eq : bridge.target = login.session.target
  session_eq : gateway.resolveSession login.request.session =
    .ok (login.session.sessionKey, login.session.target)
  fields_eq : parseContent login.session.content = .ok fields
  delegator_eq : fields.delegator = wallet
  delegate_eq : fields.delegate = crypto.publicKey login.session.connKey
  sessionID_eq : fields.sessionID = login.session.sessionKey
  requested_eq : requestedCaps login.request.caps = .ok requested
  no_forge : fields.caps.has capForge = false
  attenuated : fields.caps.subset requested = true

theorem verify_of_delegation {delegation : Delegation Signature} {fields : Fields}
    (hverify : delegation.verify crypto = .ok fields) :
    crypto.verify fields.delegator delegation.content delegation.signature = true := by
  unfold Delegation.verify at hverify
  split at hverify
  · cases hverify
  · next parsed hparsed =>
    split_ifs at hverify with hlength hsize hsigned
    rw [← Except.ok.inj hverify]
    simpa using hsigned

namespace WebRun

variable {state : WebRun Private Signature} {token : Token}

theorem Sound.admission {crypto : IdealEd25519 Private Signature}
    (hsound : state.Sound gateway crypto.toEd25519) {bridge : Bridge Private Signature}
    (hbridge : bridge ∈ state.bridges) : Nonempty (Admission state gateway crypto bridge) := by
  obtain ⟨login, hlogin, htoken, htime, htarget, signature, hpresented, hauthenticate⟩ :=
    hsound.bridges bridge hbridge
  obtain ⟨wallet, requested, drawn, hprepared⟩ := hsound.prepared login hlogin
  obtain ⟨given, hgiven, ⟨fields, hverify⟩, htransport⟩ := of_authenticate hauthenticate
  obtain rfl := Option.some.inj hgiven
  have hparse : parseContent login.session.content = .ok fields := Delegation.fields_of_verify hverify
  obtain ⟨hcanonical, hcontent⟩ := parseContent_eq_ok.mp hparse
  rw [hprepared.content_eq] at hcontent
  obtain ⟨hsession, hdelegator, hdelegate, hcaps⟩ := hprepared.sized.render_inj hcanonical.toSized hcontent
  rw [hprepared.delegator_eq] at hdelegator
  rw [hprepared.fieldCaps_eq] at hcaps
  have hsigned := verify_of_delegation hverify
  rw [← hdelegator] at hsigned
  exact ⟨{
    login := login
    wallet := wallet
    requested := requested
    signature := signature
    fields := fields
    issued := hlogin
    token_eq := htoken
    only_login := by
      intro other hother hequal
      obtain ⟨first, hfirst⟩ := List.mem_iff_getElem?.mp hlogin
      obtain ⟨second, hsecond⟩ := List.mem_iff_getElem?.mp hother
      have hsame := hsound.unique hfirst hsecond (by rw [htoken, hequal])
      rw [hsame, hsecond] at hfirst
      exact Option.some.inj hfirst
    wallet_eq := hprepared.wallet_eq
    presented := hpresented
    signed := hsigned
    only_signed := fun _ _ hother ↦ crypto.verify_unique hother hsigned
    unexpired := htime
    transport_eq := htransport
    target_eq := htarget
    session_eq := hprepared.session_eq
    fields_eq := hparse
    delegator_eq := hdelegator.symm
    delegate_eq := by rw [← hdelegate, hprepared.delegate_eq]
    sessionID_eq := by rw [← hsession, hprepared.sessionID_eq]
    requested_eq := hprepared.caps_eq
    no_forge := by
      rw [← hcaps]
      exact (withoutForge requested).1
    attenuated := by
      rw [← hcaps]
      exact (withoutForge requested).2 }⟩

/-- What a token may do: the entry of its login, and the login's objects. -/
def standing (state : WebRun Private Signature) (token : Token) :
    Option ℕ × List (Login Private Signature) :=
  (state.logins.lookup token, state.issued.filter (·.token = token))

/-- The action is a step of a request with this token. -/
def Concerns (state : WebRun Private Signature) (token : Token) : WebAction Private Signature → Prop
  | .wait _ => False
  | .prepare _ draw => ∃ drawn, draw = some drawn ∧ drawn.token = token
  | .callback request => ∃ given, request = some given ∧ given.token = token
  | .authorize index => ∃ pending, state.callbacks[index]? = some pending ∧ pending.token = token
  | .ws other => other = token
  | .bridge index _ => ∃ socket, state.sockets[index]? = some socket ∧ socket.token = token

theorem standing_eraseLogin {other : Token} (hne : token ≠ other) :
    standing { state with logins := state.logins.erase other } token = state.standing token := by
  unfold standing
  rw [AList.lookup_erase_ne hne]

variable {crypto : Ed25519 Private Signature}

theorem Sound.standing_authorizeLogin (hsound : state.Sound gateway crypto) {other : Token}
    (hne : token ≠ other) (client : WalletClient Private Signature) :
    (state.authorizeLogin other client).standing token = state.standing token := by
  unfold WebRun.authorizeLogin
  split
  · rfl
  · next pointer hlookup =>
    obtain ⟨owner, howner, htoken⟩ := hsound.mapped hlookup
    unfold standing
    rw [filter_modify_of_neg]
    intro login hlogin
    rw [howner] at hlogin
    obtain rfl := Option.some.inj hlogin
    have hother : owner.token ≠ token := by
      rw [htoken]
      exact hne.symm
    exact ⟨decide_eq_false hother, decide_eq_false hother⟩

theorem Sound.standing_step (hsound : state.Sound gateway crypto) {action : WebAction Private Signature}
    (hother : ¬ state.Concerns token action) :
    (state.step gateway crypto action).standing token = state.standing token := by
  have hchange := change_step state gateway crypto action
  generalize state.step gateway crypto action = next at hchange
  cases hchange with
  | unchanged | wait => rfl
  | @issued request drawn login _ _ htoken =>
    have hne : token ≠ login.token := by
      rintro rfl
      exact hother ⟨drawn, rfl, htoken.symm⟩
    unfold standing WebRun.putLogin
    rw [AList.lookup_insert_ne hne, List.filter_append]
    simp [hne.symm]
  | @droppedByCallback request =>
    exact standing_eraseLogin fun heq ↦ hother ⟨request, rfl, heq.symm⟩
  | called | refused => rfl
  | @authorized index pending login client hpending =>
    have hne : token ≠ pending.token := fun heq ↦ hother ⟨pending, hpending, heq.symm⟩
    exact (hsound.eraseCallback index).standing_authorizeLogin hne client
  | @droppedBySocket other => exact standing_eraseLogin fun heq ↦ hother heq.symm
  | opened | closed | bridged => rfl

/-- The requests of one browser that logs in and attaches. -/
def loginActions (request : PrepareRequest) (drawn : Draw Private) (signature : Signature) :
    List (WebAction Private Signature) :=
  [.prepare (some request) (some drawn), .callback (some ⟨drawn.token, some signature⟩), .authorize 0,
    .ws drawn.token, .bridge 0 true]

/-- A login that was signed and has not expired is bridged. -/
theorem bridges_loginActions {start : Time} {request : PrepareRequest} {drawn : Draw Private}
    {login : Login Private Signature}
    (hprepare : handleLoginPrepare gateway crypto (some request) (some drawn) = .ok login)
    {signature : Signature} {client : WalletClient Private Signature}
    (hauthenticate : authenticate crypto login.session (some signature) = .ok client)
    (hunexpired : start ≤ login.session.expires) :
    ((machine gateway crypto start).run (machine gateway crypto start).init
      (loginActions request drawn signature)).bridges =
        [⟨drawn.token, start, client, login.session.target⟩] := by
  obtain ⟨_, _, found, hfound, htoken⟩ := prepared_of_handleLoginPrepare hprepare
  obtain rfl := Option.some.inj hfound
  rw [← htoken]
  let logins : AList fun _ : Token ↦ ℕ := (∅ : AList fun _ : Token ↦ ℕ).insert login.token 0
  have hlookup : logins.lookup login.token = some 0 := AList.lookup_insert _
  have hexpired : ¬ login.session.expires < start := Int.not_lt.mpr hunexpired
  let signed : WebRun Private Signature :=
    ⟨start, [login], logins, [⟨login.token, 0, some signature⟩], [], [(login.token, signature)], []⟩
  let authorized : WebRun Private Signature :=
    ⟨start, [login.setAuthed (some client)], logins, [], [], [(login.token, signature)], []⟩
  let opened : WebRun Private Signature := { authorized with sockets := [⟨login.token, 0, start⟩] }
  have hprepared : (machine gateway crypto start).step (machine gateway crypto start).init
      (.prepare (some request) (some drawn)) = ⟨start, [login], logins, [], [], [], []⟩ := by
    change prepare _ gateway crypto _ _ = _
    rw [prepare, hprepare]
    rfl
  have hsigned : (machine gateway crypto start).step ⟨start, [login], logins, [], [], [], []⟩
      (.callback (some ⟨login.token, some signature⟩)) = signed := by
    simp [machine, step, callback, getLogin, hlookup, hexpired, signed]
  have hauthorized : (machine gateway crypto start).step signed (.authorize 0) = authorized := by
    simp [machine, step, authorize, callbackResult, authorizeLogin, hlookup, hauthenticate, signed,
      authorized]
  have hopened : (machine gateway crypto start).step authorized (.ws login.token) = opened := by
    simp [machine, step, ws, getLogin, hlookup, hexpired, authorized, opened, Login.setAuthed]
  have hbridged : (machine gateway crypto start).step opened (.bridge 0 true) =
      { authorized with bridges := [⟨login.token, start, client, login.session.target⟩] } := by
    simp [machine, step, bridge, socketResult, authorized, opened, Login.setAuthed]
  rw [loginActions, ← htoken, Machine.run_cons, hprepared, Machine.run_cons, hsigned, Machine.run_cons,
    hauthorized, Machine.run_cons, hopened, Machine.run_cons, hbridged, Machine.run_nil]

/-- **Admission.** In every reachable state each bridge is admitted by the signature of the wallet named
for its token, and a run of other tokens' requests leaves a token's standing as it is. -/
theorem admission_of_reachable {crypto : IdealEd25519 Private Signature} {start : Time}
    (hreach : (machine gateway crypto.toEd25519 start).Reachable state) :
    (∀ bridge ∈ state.bridges, Nonempty (Admission state gateway crypto bridge)) ∧
      ∀ (token : Token) (actions : List (WebAction Private Signature)),
        (machine gateway crypto.toEd25519 start).Legal state actions →
        (machine gateway crypto.toEd25519 start).Along (fun now action ↦ ¬ now.Concerns token action)
          state actions →
        ((machine gateway crypto.toEd25519 start).run state actions).standing token =
          state.standing token := by
  have hsound := sound_of_reachable hreach
  refine ⟨fun bridge hbridge ↦ hsound.admission hbridge, ?_⟩
  intro token actions hlegal halong
  clear hreach
  induction actions generalizing state with
  | nil => rfl
  | cons action rest ih =>
    have hfirst := hsound.standing_step halong.1
    have hrest := ih (hsound.step hlegal.1) hlegal.2 halong.2
    exact hrest.trans hfirst

end WebRun

section Example

def exampleGateway : Gateway where
  multiSession := false
  sessionKey := (freeKey 9).1
  target := "/p2p/host"
  delegationTTL := 16 * 60 * minute
  sessionTarget _ := none
  length_sessionKey _ := (freeKey 9).2

def exampleRequest : PrepareRequest := ⟨List.replicate 32 '1', "write,forge".toList, []⟩

def exampleDraw : Draw { key : PublicKey // key.length = publicKeySize } :=
  ⟨freeKey 1, ⟨List.replicate 16 2, rfl⟩, 951827696 * nanosPerSecond, "token"⟩

/-- The fields that the example's wallet signs: it asked for `forge` and does not get it. -/
def exampleFields : Fields :=
  ⟨(freeKey 9).1, (freeKey 0).1, (freeKey 1).1, capWrite, 951827636 * nanosPerSecond,
    951885296 * nanosPerSecond, List.replicate 16 2⟩

def exampleLogin : Login { key : PublicKey // key.length = publicKeySize } (FreeTag PublicKey Bytes) :=
  ⟨"token", exampleRequest, freeKey 1, exampleFields.render, (freeKey 9).1, "/p2p/host", none,
    951885296 * nanosPerSecond⟩

theorem prepare_example :
    handleLoginPrepare exampleGateway freeEd25519.toEd25519 (some exampleRequest) (some exampleDraw) =
      .ok exampleLogin := by
  have hwallet : parseAddress exampleRequest.wallet = .ok (freeKey 0).1 := by decide
  have hcaps : requestedCaps exampleRequest.caps = .ok (capWrite ||| capForge) := by decide
  have hsession : exampleGateway.resolveSession exampleRequest.session =
      .ok ((freeKey 9).1, "/p2p/host") := rfl
  have htimes : exampleDraw.now - minute = 951827636 * nanosPerSecond ∧
      exampleDraw.now + exampleGateway.delegationTTL = 951885296 * nanosPerSecond := by decide
  unfold handleLoginPrepare
  dsimp only
  rw [hwallet, hsession, hcaps]
  dsimp only [bind, Except.bind]
  rw [htimes.1, htimes.2]
  rfl

theorem admission_example :
    let machine := WebRun.machine exampleGateway freeEd25519.toEd25519 exampleDraw.now
    let state := machine.run machine.init (WebRun.loginActions exampleRequest exampleDraw
      (freeEd25519.sign (freeKey 0) exampleLogin.session.content))
    state.bridges ≠ [] ∧ ∀ bridge ∈ state.bridges,
      Nonempty (Admission state exampleGateway freeEd25519 bridge) := by
  have hcanonical : exampleFields.Canonical :=
    ⟨⟨by decide, by decide, by decide, by decide, by decide⟩, by decide +kernel, by decide +kernel⟩
  have hauthenticate := @authenticate_sign _ _ freeEd25519.toEd25519 exampleLogin.session exampleFields rfl
    hcanonical (freeKey 0) rfl
  have hunexpired : exampleDraw.now ≤ exampleLogin.session.expires := by decide
  have hbridges := WebRun.bridges_loginActions prepare_example hauthenticate hunexpired
  have hlegal : (WebRun.machine exampleGateway freeEd25519.toEd25519 exampleDraw.now).Legal
      (WebRun.machine exampleGateway freeEd25519.toEd25519 exampleDraw.now).init
      (WebRun.loginActions exampleRequest exampleDraw
        (freeEd25519.sign (freeKey 0) exampleLogin.session.content)) :=
    ⟨⟨by simp [WebRun.machine], Int.le_refl _⟩, trivial, trivial, trivial, trivial, trivial⟩
  have hadmission := WebRun.admission_of_reachable (Machine.Reachable.init.run hlegal)
  refine ⟨?_, hadmission.1⟩
  rw [hbridges]
  exact List.cons_ne_nil _ _

end Example

end Mosey.Web
