import Mathlib.Data.List.Nodup
import Mosey.Auth.PSK

/-!
# Agreement of the shared-secret handshake

Any number of clients and servers run concurrently over arbitrary lists of named secrets, and the
adversary controls every message and knows the leaked secrets. The two code inputs are injective in
the nonces once their lengths are checked, and disjoint because the direction labels differ, so a
code under a secret that has not leaked identifies the session that computed it.
-/

namespace Mosey.Auth

open Library PSKAuth

section Registration

variable {Key Tag : Type} {crypto : PSKCrypto Key Tag}

/-- A registered secret has a label that was not taken. -/
theorem register_eq_ok {out out' : PSKAuth Key} {named : NamedSecret}
    (hregister : register crypto out named = .ok out') :
    out'.entries = out.entries ++ [newEntry crypto named] ∧
      ∀ entry ∈ out.entries, entry.label ≠ named.label := by
  unfold register at hregister
  split_ifs at hregister with hlabel hsecret hduplicate
  obtain rfl := Except.ok.inj hregister
  refine ⟨rfl, fun entry hentry hsame ↦ hduplicate ?_⟩
  rw [byLabel, List.find?_isSome]
  exact ⟨entry, hentry, by simpa using hsame⟩

variable {entries : List NamedSecret}

/-- Registering a list of secrets appends their entries and keeps the labels distinct. -/
theorem foldlM_register_eq_ok {out out' : PSKAuth Key}
    (hfold : entries.foldlM (register crypto) out = .ok out') :
    out'.entries = out.entries ++ entries.map (newEntry crypto) ∧
      ((out.entries.map Entry.label).Nodup → (out'.entries.map Entry.label).Nodup) := by
  induction entries generalizing out with
  | nil =>
    obtain rfl := Except.ok.inj hfold
    exact ⟨by simp, id⟩
  | cons named rest ih =>
    rw [List.foldlM_cons] at hfold
    cases hfirst : register crypto out named with
    | error err =>
      rw [hfirst] at hfold
      cases hfold
    | ok next =>
      rw [hfirst] at hfold
      obtain ⟨hentries, hnodup⟩ := ih hfold
      obtain ⟨hnext, hfresh⟩ := register_eq_ok hfirst
      refine ⟨by rw [hentries, hnext]; simp, fun hout ↦ hnodup ?_⟩
      rw [hnext, List.map_append, List.nodup_append]
      refine ⟨hout, List.nodup_singleton _, ?_⟩
      intro label hlabel label' hlabel' hsame
      obtain ⟨entry, hentry, rfl⟩ := List.mem_map.mp hlabel
      rw [List.map_singleton, List.mem_singleton] at hlabel'
      exact hfresh entry hentry (hsame.trans hlabel')

/-- A built authenticator has one entry for each named secret, under pairwise distinct labels. -/
theorem newMultiPSKAuth_eq_ok {auth : PSKAuth Key} (hauth : newMultiPSKAuth crypto entries = .ok auth) :
    auth.entries = entries.map (newEntry crypto) ∧ (auth.entries.map Entry.label).Nodup := by
  unfold newMultiPSKAuth at hauth
  split_ifs at hauth
  obtain ⟨hentries, hnodup⟩ := foldlM_register_eq_ok hauth
  exact ⟨by simpa using hentries, hnodup List.nodup_nil⟩

/-- Within one authenticator an identity determines the named secret it belongs to. -/
theorem newEntry_of_identity {auth : PSKAuth Key} (hauth : newMultiPSKAuth crypto entries = .ok auth)
    {entry : Entry Key} {named : NamedSecret} (hentry : entry ∈ auth.entries) (hnamed : named ∈ entries)
    (hidentity : entry.identity = named.identity) : entry = newEntry crypto named := by
  obtain ⟨hentries, hnodup⟩ := newMultiPSKAuth_eq_ok hauth
  have hmem : newEntry crypto named ∈ auth.entries := hentries ▸ List.mem_map_of_mem hnamed
  refine List.inj_on_of_nodup_map hnodup hentry hmem ?_
  rw [hentries] at hentry
  obtain ⟨origin, _, rfl⟩ := List.mem_map.mp hentry
  exact congrArg Identity.label hidentity

end Registration

theorem macLabel_length : (ascii macLabelServer).length = (ascii macLabelClient).length := by
  decide

theorem macInput_injective {label : String} {nonceA nonceB nonceA' nonceB' : Bytes}
    (hlength : nonceA.length = nonceA'.length)
    (hinput : macInput label nonceA nonceB = macInput label nonceA' nonceB') :
    nonceA = nonceA' ∧ nonceB = nonceB' := by
  unfold macInput at hinput
  rw [List.append_assoc, List.append_assoc] at hinput
  exact List.append_inj (List.append_cancel_left hinput) hlength

/-- What one direction authenticates is never what the other one does. -/
theorem macInput_disjoint (nonceA nonceB nonceA' nonceB' : Bytes) :
    macInput macLabelServer nonceA nonceB ≠ macInput macLabelClient nonceA' nonceB' := by
  intro hinput
  unfold macInput at hinput
  rw [List.append_assoc, List.append_assoc] at hinput
  have hlabels := (List.append_inj hinput macLabel_length).1
  exact absurd hlabels (by decide)

theorem mac_disjoint {Key Tag : Type} (crypto : PSKCrypto Key Tag) (key key' : Key)
    (nonceA nonceB nonceA' nonceB' : Bytes) :
    mac crypto key macLabelServer nonceA nonceB ≠
      mac crypto key' macLabelClient nonceA' nonceB' :=
  fun hmac ↦ macInput_disjoint _ _ _ _ (crypto.mac_injective hmac).2

/-! ## The network -/

section Network

variable {Key Tag : Type} (crypto : PSKCrypto Key Tag)

abbrev PSKSession (Tag : Type) := Session PSKRole (PSKSegment Tag)

abbrev PSKWorld (Tag : Type) := List (PSKSession Tag)

def pskNetwork [DecidableEq Tag] (leaked : String → Prop) :
    Network PSKRole (PSKRun Key) (PSKSegment Tag) (AuthMessage Tag) Key Bytes Bytes Tag where
  initial := PSKRun.initial crypto
  receive := PSKRun.receive crypto
  scheme := crypto.toIdealMac.tagScheme
  corrupt key := ∃ secret, leaked secret ∧ derivePSKKey crypto secret = key
  known _ := False
  draws := Segment.draws
  hears io := match io.read with
    | .ok message => message.nonces
    | .error _ => []
  presents io := match io.read with
    | .ok message => message.tags
    | .error _ => []
  holds _ := []
  carries := AuthMessage.tags

/-- A client whose own entry, the first of its list, is `entry`. -/
def ClientConfigured (role : PSKRole) (entry : Entry Key) : Prop :=
  ∃ own rest, role = .client (own :: rest) ∧ entry = newEntry crypto own

/-- A server that has answered `nonceC` with `nonceS` under one of its entries. -/
structure ServerChallenged (role : PSKRole) (inputs : List (PSKSegment Tag))
    (effects : Effects (AuthMessage Tag) Key Bytes) (entry : Entry Key) (nonceC nonceS : Bytes) :
    Prop where
  configured : ∃ entries auth, role = .server entries ∧
    newMultiPSKAuth crypto entries = .ok auth ∧ entry ∈ auth.entries
  heard : ∃ hint, ReadAt inputs 0 (.clientHello nonceC hint)
  length : nonceC.length = nonceSize
  drawn : Drawn inputs nonceS
  sent : AuthMessage.serverProof nonceS (mac crypto entry.key macLabelServer nonceC nonceS) ∈
    effects.written

def ClientSigned (run : PSKRun Key) (signed : Key × Bytes) : Prop :=
  ∃ entry nonceC nonceS result, run = .clientDone entry nonceC nonceS result ∧
    signed = (entry.key, macInput macLabelClient nonceS nonceC)

def ServerSigned (role : PSKRole) (inputs : List (PSKSegment Tag))
    (effects : Effects (AuthMessage Tag) Key Bytes) (signed : Key × Bytes) : Prop :=
  ∃ entry nonceC nonceS, ServerChallenged crypto role inputs effects entry nonceC nonceS ∧
    signed = (entry.key, macInput macLabelServer nonceC nonceS)

/-- What the state of a session says about its role, its inputs and its messages. -/
def PSKState (role : PSKRole) (inputs : List (PSKSegment Tag))
    (effects : Effects (AuthMessage Tag) Key Bytes) : PSKRun Key → Prop
  | .clientStart auth => inputs = [] ∧ ∃ entries, role = .client entries ∧
      newMultiPSKAuth crypto entries = .ok auth
  | .clientAwait entry nonceC => inputs.length = 1 ∧ ClientConfigured crypto role entry ∧
      Drawn inputs nonceC
  | .clientDone entry nonceC nonceS result => ClientConfigured crypto role entry ∧
      Drawn inputs nonceC ∧ nonceS.length = nonceSize ∧
      (∀ identity, result = .ok identity → identity = entry.identity) ∧
      ReadAt inputs 1 (.serverProof nonceS (mac crypto entry.key macLabelServer nonceC nonceS))
  | .serverStart auth => inputs = [] ∧ ∃ entries, role = .server entries ∧
      newMultiPSKAuth crypto entries = .ok auth
  | .serverAwait entry nonceC nonceS => inputs.length = 1 ∧
      ServerChallenged crypto role inputs effects entry nonceC nonceS
  | .serverDone entry nonceC nonceS identity =>
    ServerChallenged crypto role inputs effects entry nonceC nonceS ∧ identity = entry.identity ∧
      ReadAt inputs 1 (.clientProof (mac crypto entry.key macLabelClient nonceS nonceC))
  | .failed _ => True

/-- What holds of a session after any inputs. -/
structure PSKLocal (role : PSKRole) (inputs : List (PSKSegment Tag)) (run : PSKRun Key)
    (effects : Effects (AuthMessage Tag) Key Bytes) : Prop where
  state : PSKState crypto role inputs effects run
  signed : ∀ signed ∈ effects.signed,
    ClientSigned run signed ∨ ServerSigned crypto role inputs effects signed

variable {crypto} {role : PSKRole} {inputs : List (PSKSegment Tag)}
variable {run : PSKRun Key} {effects extra : Effects (AuthMessage Tag) Key Bytes}
variable {io : PSKSegment Tag}

variable {nonceC nonceS : Bytes} {message : AuthMessage Tag}

theorem ServerChallenged.concat {entry : Entry Key}
    (hchallenged : ServerChallenged crypto role inputs effects entry nonceC nonceS)
    (io : PSKSegment Tag) :
    ServerChallenged crypto role (inputs ++ [io]) (effects.append extra) entry nonceC nonceS where
  configured := hchallenged.configured
  heard := hchallenged.heard.imp fun _ hread ↦ hread.concat io
  length := hchallenged.length
  drawn := hchallenged.drawn.concat io
  sent := List.mem_append_left _ hchallenged.sent

theorem ServerSigned.concat {signed : Key × Bytes}
    (hsigned : ServerSigned crypto role inputs effects signed) (io : PSKSegment Tag) :
    ServerSigned crypto role (inputs ++ [io]) (effects.append extra) signed := by
  obtain ⟨entry, nonceC, nonceS, hchallenged, hcontent⟩ := hsigned
  exact ⟨entry, nonceC, nonceS, hchallenged.concat io, hcontent⟩

/-- A client that has not finished has signed nothing. -/
theorem PSKLocal.signed_eq_nil (hlocal : PSKLocal crypto role inputs run effects)
    (hrole : ∃ entries, role = .client entries)
    (hrun : ∀ entry nonceC nonceS result, run ≠ .clientDone entry nonceC nonceS result) :
    effects.signed = [] := by
  refine List.eq_nil_iff_forall_not_mem.mpr fun signed hsigned ↦ ?_
  obtain ⟨entries, rfl⟩ := hrole
  rcases hlocal.signed signed hsigned with
    ⟨entry, nonceC, nonceS, result, hdone, _⟩ | ⟨_, _, _, hchallenged, _⟩
  · exact hrun entry nonceC nonceS result hdone
  · obtain ⟨_, _, hserver, _⟩ := hchallenged.configured
    cases hserver

/-- A step that adds nothing signed keeps what is known of earlier codes. -/
theorem PSKLocal.quiet (hlocal : PSKLocal crypto role inputs run effects) {next : PSKRun Key}
    {written : List (AuthMessage Tag)}
    (hstate : PSKState crypto role (inputs ++ [io]) (effects.append ⟨written, []⟩) next)
    (hclient : ∀ signed ∈ effects.signed, ClientSigned run signed → ClientSigned next signed) :
    PSKLocal crypto role (inputs ++ [io]) next (effects.append ⟨written, []⟩) where
  state := hstate
  signed signed hmem := by
    rw [Effects.append_signed, List.append_nil] at hmem
    exact (hlocal.signed signed hmem).imp (hclient signed hmem) fun hsigned ↦ hsigned.concat io

/-- What one segment of a session preserves. -/
theorem PSKLocal.receive [DecidableEq Tag] (hlocal : PSKLocal crypto role inputs run effects)
    (io : PSKSegment Tag) :
    PSKLocal crypto role (inputs ++ [io]) (PSKRun.receive crypto run io).1
      (effects.append (PSKRun.receive crypto run io).2) := by
  cases run with
  | clientStart auth =>
    obtain ⟨hinputs, entries, hrole, hauth⟩ := hlocal.state
    have hnil := hlocal.signed_eq_nil ⟨entries, hrole⟩ (by simp)
    rcases PSKRun.sendClientHello_cases auth io with
      ⟨error, written, heq, _⟩ | ⟨entry, rest, nonceC, hentries, hrand, heq⟩
    · rw [PSKRun.receive, heq]
      exact hlocal.quiet trivial (by simp [hnil])
    · rw [PSKRun.receive, heq]
      refine hlocal.quiet ⟨by simp [hinputs], ?_, .last hrand⟩ (by simp [hnil])
      rw [(newMultiPSKAuth_eq_ok hauth).1, List.map_eq_cons_iff] at hentries
      obtain ⟨own, others, rfl, hown, _⟩ := hentries
      exact ⟨own, others, hrole, hown.symm⟩
  | clientAwait entry nonceC =>
    obtain ⟨hlength, hconfigured, hdrawn⟩ := hlocal.state
    have hnil := hlocal.signed_eq_nil (by obtain ⟨_, _, h, _⟩ := hconfigured; exact ⟨_, h⟩) (by simp)
    rcases PSKRun.finishClient_cases crypto entry nonceC io with
      ⟨error, heq⟩ | ⟨nonceS, result, hread, hnonceS, hresult, heq⟩
    · rw [PSKRun.receive, heq]
      exact hlocal.quiet trivial (by simp [hnil])
    · rw [PSKRun.receive, heq]
      refine ⟨⟨hconfigured, hdrawn.concat io, hnonceS, hresult, .last hlength hread⟩, ?_⟩
      intro signed hsigned
      rw [Effects.append_signed, hnil, List.nil_append, List.mem_singleton] at hsigned
      exact .inl ⟨entry, nonceC, nonceS, result, rfl, hsigned⟩
  | serverStart auth =>
    obtain ⟨hinputs, entries, hrole, hauth⟩ := hlocal.state
    rcases PSKRun.sendServerProof_cases crypto auth io with
      ⟨error, heq⟩ | ⟨nonceC, hint, entry, nonceS, next, hread, hnonceC, hmem, hrand, hnext, heq⟩
    · rw [PSKRun.receive, heq]
      exact hlocal.quiet trivial (by rintro _ _ ⟨_, _, _, _, ⟨⟩, _⟩)
    · rw [PSKRun.receive, heq]
      have hchallenged : ServerChallenged crypto role (inputs ++ [io]) (effects.append
          ⟨[.serverProof nonceS.1 (mac crypto entry.key macLabelServer nonceC nonceS.1)],
            [(entry.key, macInput macLabelServer nonceC nonceS.1)]⟩) entry nonceC nonceS.1 :=
        ⟨⟨entries, auth, hrole, hauth, hmem⟩, ⟨hint, .last (by simp [hinputs]) hread⟩, hnonceC,
          .last hrand, by simp⟩
      refine ⟨?_, ?_⟩
      · rcases hnext with ⟨error, rfl⟩ | rfl
        · trivial
        · exact ⟨by simp [hinputs], hchallenged⟩
      · intro signed hsigned
        rcases List.mem_append.mp hsigned with hold | hnew
        · rcases hlocal.signed signed hold with ⟨_, _, _, _, hdone, _⟩ | hearlier
          · cases hdone
          · exact .inr (hearlier.concat io)
        · exact .inr ⟨entry, nonceC, nonceS.1, hchallenged, List.mem_singleton.mp hnew⟩
  | serverAwait entry nonceC nonceS =>
    obtain ⟨hlength, hchallenged⟩ := hlocal.state
    rcases PSKRun.finishServer_cases crypto entry nonceC nonceS io with ⟨error, heq⟩ | ⟨hread, heq⟩
    · rw [PSKRun.receive, heq]
      exact hlocal.quiet trivial (by rintro _ _ ⟨_, _, _, _, ⟨⟩, _⟩)
    · rw [PSKRun.receive, heq]
      exact hlocal.quiet ⟨hchallenged.concat io, rfl, .last hlength hread⟩
        (by rintro _ _ ⟨_, _, _, _, ⟨⟩, _⟩)
  | clientDone entry nonceC nonceS result =>
    obtain ⟨hconfigured, hdrawn, hnonceS, hresult, hread⟩ := hlocal.state
    exact hlocal.quiet ⟨hconfigured, hdrawn.concat io, hnonceS, hresult, hread.concat io⟩
      (fun _ _ hsigned ↦ hsigned)
  | serverDone entry nonceC nonceS identity =>
    obtain ⟨hchallenged, hidentity, hread⟩ := hlocal.state
    exact hlocal.quiet ⟨hchallenged.concat io, hidentity, hread.concat io⟩
      (fun _ _ hsigned ↦ hsigned)
  | failed error => exact hlocal.quiet trivial (fun _ _ hsigned ↦ hsigned)

variable [DecidableEq Tag] (crypto) (leaked : String → Prop)

/-- What a session has read and drawn explains its state and every code it has made. -/
theorem pskLocal (session : PSKSession Tag) :
    PSKLocal crypto session.role session.inputs ((pskNetwork crypto leaked).state session)
      ((pskNetwork crypto leaked).exec session).2 := by
  refine (pskNetwork crypto leaked).exec_invariant session.role
    (P := PSKLocal crypto session.role) ?_ (fun inputs io run effects hlocal ↦ hlocal.receive io)
    session.inputs
  refine ⟨?_, by simp⟩
  change PSKState crypto session.role [] Effects.none (PSKRun.initial crypto session.role)
  cases hrole : session.role with
  | client entries =>
    rw [PSKRun.initial]
    split
    · next auth hauth => exact ⟨rfl, entries, rfl, hauth⟩
    · trivial
  | server entries =>
    rw [PSKRun.initial]
    split
    · next auth hauth => exact ⟨rfl, entries, rfl, hauth⟩
    · trivial

variable {crypto leaked}

/-- Every code that a session can send was made or read by it. -/
theorem pskNetwork_traceable : (pskNetwork crypto leaked).Traceable := by
  refine Network.traceable_of_receive (fun _ _ ↦ False) (by simp) (by simp) ?_
  intro run io message hmessage tag htag
  refine .inr ?_
  change ∃ entry ∈ (PSKRun.receive crypto run io).2.signed, tag = crypto.mac entry.1 entry.2
  change message ∈ (PSKRun.receive crypto run io).2.written at hmessage
  change tag ∈ message.tags at htag
  cases run with
  | clientStart auth =>
    rcases PSKRun.sendClientHello_cases auth io with
      ⟨error, written, heq, htags⟩ | ⟨entry, rest, nonceC, _, _, heq⟩
    · rw [PSKRun.receive, heq] at hmessage
      rw [htags message hmessage] at htag
      cases htag
    · rw [PSKRun.receive, heq] at hmessage
      rw [List.mem_singleton.mp hmessage] at htag
      cases htag
  | clientAwait entry nonceC =>
    rcases PSKRun.finishClient_cases crypto entry nonceC io with
      ⟨error, heq⟩ | ⟨nonceS, result, _, _, _, heq⟩
    · rw [PSKRun.receive, heq] at hmessage
      cases hmessage
    · rw [PSKRun.receive, heq] at hmessage ⊢
      rw [List.mem_singleton.mp hmessage] at htag
      exact ⟨_, List.mem_singleton_self _, List.mem_singleton.mp htag⟩
  | serverStart auth =>
    rcases PSKRun.sendServerProof_cases crypto auth io with
      ⟨error, heq⟩ | ⟨nonceC, hint, entry, nonceS, next, _, _, _, _, _, heq⟩
    · rw [PSKRun.receive, heq] at hmessage
      cases hmessage
    · rw [PSKRun.receive, heq] at hmessage ⊢
      rw [List.mem_singleton.mp hmessage] at htag
      exact ⟨_, List.mem_singleton_self _, List.mem_singleton.mp htag⟩
  | serverAwait entry nonceC nonceS =>
    rcases PSKRun.finishServer_cases crypto entry nonceC nonceS io with
      ⟨error, heq⟩ | ⟨_, heq⟩
    · rw [PSKRun.receive, heq] at hmessage
      cases hmessage
    · rw [PSKRun.receive, heq] at hmessage
      cases hmessage
  | clientDone | serverDone | failed => cases hmessage

/-! ## Agreement -/

/-- A code read by a session and valid for a secret that has not leaked was computed by a session. -/
theorem signed_of_read {world : PSKWorld Tag}
    (hreach : (pskNetwork crypto leaked).machine.Reachable world) {secret : String}
    (hsecret : ¬ leaked secret) {session : PSKSession Tag} (hmem : session ∈ world) {position : ℕ}
    (hread : ReadAt session.inputs position message) {content : Bytes}
    (htag : crypto.mac (derivePSKKey crypto secret) content ∈ message.tags) :
    (pskNetwork crypto leaked).Signed world (derivePSKKey crypto secret) content := by
  obtain ⟨io, hio, hmessage⟩ := hread
  have hkey : ¬ (pskNetwork crypto leaked).corrupt (derivePSKKey crypto secret) := by
    rintro ⟨other, hother, hsame⟩
    exact hsecret (crypto.hkdf_injective hsame ▸ hother)
  have hpresented : crypto.mac (derivePSKKey crypto secret) content ∈
      (pskNetwork crypto leaked).presents io := by
    change _ ∈ match io.read with
      | .ok message => message.tags
      | .error _ => []
    rw [hmessage]
    exact htag
  exact (Network.authentic pskNetwork_traceable hreach hmem (List.mem_of_getElem? hio) hpresented
    rfl hkey).resolve_left id

variable (crypto leaked)

/-- Session `index` is a `ServerHandshake` that returned the identity of its entry `named`. -/
def ServerReturned (world : PSKWorld Tag) (index : ℕ)
    (named : NamedSecret) (nonceC nonceS : Bytes) : Prop :=
  ∃ session entries entry, world[index]? = some session ∧ session.role = .server entries ∧
    named ∈ entries ∧
    (pskNetwork crypto leaked).state session = .serverDone entry nonceC nonceS named.identity

/-- Session `index` is a `ServerHandshake` under `secret` that answered `nonceC` with `nonceS`. -/
def ServerRan (world : PSKWorld Tag) (index : ℕ)
    (secret : String) (nonceC nonceS : Bytes) : Prop :=
  ∃ session entries named hint, world[index]? = some session ∧ session.role = .server entries ∧
    named ∈ entries ∧ named.secret = secret ∧ ReadAt session.inputs 0 (.clientHello nonceC hint) ∧
    Drawn session.inputs nonceS ∧
    AuthMessage.serverProof nonceS
      (mac crypto (derivePSKKey crypto secret) macLabelServer nonceC nonceS) ∈
        (pskNetwork crypto leaked).written session

/-- Session `index` is a `ClientHandshake` under `secret` that drew `nonceC` and accepted a server
proof over `nonceC` and `nonceS`. -/
def ClientRan (world : PSKWorld Tag) (index : ℕ)
    (secret : String) (nonceC nonceS : Bytes) : Prop :=
  ∃ session own rest result, world[index]? = some session ∧ session.role = .client (own :: rest) ∧
    own.secret = secret ∧ Drawn session.inputs nonceC ∧
    (pskNetwork crypto leaked).state session = .clientDone (newEntry crypto own) nonceC nonceS result

/-- Session `index` is a `ClientHandshake` under `secret` that returned without an error. -/
def ClientReturned (world : PSKWorld Tag) (index : ℕ)
    (secret : String) (nonceC nonceS : Bytes) : Prop :=
  ∃ session own rest entry identity, world[index]? = some session ∧
    session.role = .client (own :: rest) ∧ own.secret = secret ∧
    (pskNetwork crypto leaked).state session = .clientDone entry nonceC nonceS (.ok identity)

/-- The message that session `client` accepted was written by session `server`. -/
def AcceptedFrom (world : PSKWorld Tag) (client server : ℕ) :
    Prop :=
  ∃ clientSession serverSession nonceS tag, world[client]? = some clientSession ∧
    world[server]? = some serverSession ∧
    ReadAt clientSession.inputs 1 (.serverProof nonceS tag) ∧
    AuthMessage.serverProof nonceS tag ∈ (pskNetwork crypto leaked).written serverSession

/-- The session finished, having accepted `message`. -/
def Accepted (session : PSKSession Tag) (message : AuthMessage Tag) :
    Prop :=
  ReadAt session.inputs 1 message ∧
    match (pskNetwork crypto leaked).state session with
    | .clientDone _ _ _ _ => True
    | .serverDone _ _ _ _ => True
    | _ => False

/-- Agreement on the runs of a world under one secret. -/
structure PSKAgreement (world : PSKWorld Tag)
    (secret : String) : Prop where
  server_matched : ∀ server named nonceC nonceS, named.secret = secret →
    ServerReturned crypto leaked world server named nonceC nonceS →
      ∃ client, ClientRan crypto leaked world client secret nonceC nonceS ∧
        AcceptedFrom crypto leaked world client server
  servers_distinct : ∀ server server' named named' nonceC nonceS nonceC' nonceS' client,
    ServerReturned crypto leaked world server named nonceC nonceS →
      ServerReturned crypto leaked world server' named' nonceC' nonceS' →
      ClientRan crypto leaked world client secret nonceC nonceS →
      ClientRan crypto leaked world client secret nonceC' nonceS' → server = server'
  client_matched : ∀ client nonceC nonceS,
    ClientReturned crypto leaked world client secret nonceC nonceS →
      ∃ server, ServerRan crypto leaked world server secret nonceC nonceS
  directions : ∀ sender ∈ world, ∀ receiver ∈ world,
    sender.role.isServer = receiver.role.isServer →
      ∀ sent ∈ (pskNetwork crypto leaked).written sender, ∀ message,
        Accepted crypto leaked receiver message →
          message.tags ≠ [] ∧ ∀ tag ∈ message.tags, tag ∉ sent.tags

variable {crypto leaked} {world : PSKWorld Tag} {secret : String}

theorem ServerReturned.challenged {server : ℕ} {named : NamedSecret}
    (hreturned : ServerReturned crypto leaked world server named nonceC nonceS) :
    ∃ session, world[server]? = some session ∧
      ServerChallenged crypto session.role session.inputs ((pskNetwork crypto leaked).exec session).2
        (newEntry crypto named) nonceC nonceS ∧
      ReadAt session.inputs 1
        (.clientProof (mac crypto (newEntry crypto named).key macLabelClient nonceS nonceC)) := by
  obtain ⟨session, entries, entry, hserver, hrole, hnamed, hstate⟩ := hreturned
  have hlocal := (pskLocal crypto leaked session).state
  rw [hstate] at hlocal
  obtain ⟨hchallenged, hidentity, hread⟩ := hlocal
  obtain ⟨entries', auth, hrole', hauth, hentry⟩ := hchallenged.configured
  obtain rfl : entries = entries' := by simpa [hrole] using hrole'
  obtain rfl := newEntry_of_identity hauth hentry hnamed hidentity.symm
  exact ⟨session, hserver, hchallenged, hread⟩

/-- An accepting server's counterpart is the client that computed the accepted code. -/
theorem ServerReturned.matched (hreach : (pskNetwork crypto leaked).machine.Reachable world)
    (hsecret : ¬ leaked secret) {server : ℕ} {named : NamedSecret} (hnamed : named.secret = secret)
    (hreturned : ServerReturned crypto leaked world server named nonceC nonceS) :
    ∃ client, ClientRan crypto leaked world client secret nonceC nonceS ∧
      AcceptedFrom crypto leaked world client server := by
  obtain ⟨session, hserver, hchallenged, hread⟩ := hreturned.challenged
  subst hnamed
  obtain ⟨clientSession, hclientMem, hsigned⟩ := signed_of_read hreach hsecret
    (List.mem_of_getElem? hserver) hread (List.mem_singleton_self _)
  obtain ⟨client, hclient⟩ := List.mem_iff_getElem?.mp hclientMem
  have hlocal := pskLocal crypto leaked clientSession
  rcases hlocal.signed _ hsigned with
    ⟨entry, nonceC', nonceS', result, hstate, hcontent⟩ | ⟨_, nonceC', nonceS', _, hcontent⟩
  · have hdone := hlocal.state
    rw [hstate] at hdone
    obtain ⟨⟨own, rest, hrole, rfl⟩, hdrawn, hnonceS, _, hproof⟩ := hdone
    obtain ⟨hkey, hinput⟩ := Prod.mk.inj hcontent
    obtain ⟨rfl, rfl⟩ := macInput_injective (hchallenged.drawn.length.trans hnonceS.symm) hinput
    have hown : own.secret = named.secret := (crypto.hkdf_injective hkey).symm
    refine ⟨client, ⟨clientSession, own, rest, result, hclient, hrole, hown, hdrawn, hstate⟩, ?_⟩
    exact ⟨clientSession, session, nonceS, _, hclient, hserver, hproof, by
      have hsent := hchallenged.sent
      simp only [newEntry, ← hown] at hsent
      exact hsent⟩
  · exact absurd (Prod.mk.inj hcontent).2.symm (macInput_disjoint _ _ _ _)

/-- Two accepting servers with one client drew the same nonce, so they are one session. -/
theorem ServerReturned.unique (hreach : (pskNetwork crypto leaked).machine.Reachable world)
    {server server' : ℕ} {named named' : NamedSecret} {nonceC nonceC' nonceS : Bytes}
    (hreturned : ServerReturned crypto leaked world server named nonceC nonceS)
    (hreturned' : ServerReturned crypto leaked world server' named' nonceC' nonceS) :
    server = server' := by
  obtain ⟨session, hserver, hchallenged, _⟩ := hreturned.challenged
  obtain ⟨session', hserver', hchallenged', _⟩ := hreturned'.challenged
  exact Network.drawing_session_unique hreach hserver hserver' hchallenged.drawn hchallenged'.drawn

theorem ClientRan.nonces_eq {client : ℕ} {nonceC nonceS nonceC' nonceS' : Bytes}
    (hran : ClientRan crypto leaked world client secret nonceC nonceS)
    (hran' : ClientRan crypto leaked world client secret nonceC' nonceS') :
    nonceC = nonceC' ∧ nonceS = nonceS' := by
  obtain ⟨session, own, rest, result, hclient, _, _, _, hstate⟩ := hran
  obtain ⟨session', own', rest', result', hclient', _, _, _, hstate'⟩ := hran'
  obtain rfl : session = session' := Option.some.inj (hclient.symm.trans hclient')
  rw [hstate] at hstate'
  injection hstate' with _ hnonceC hnonceS _
  exact ⟨hnonceC, hnonceS⟩

/-- A successful client's counterpart is the server that computed the code it accepted. -/
theorem ClientReturned.matched (hreach : (pskNetwork crypto leaked).machine.Reachable world)
    (hsecret : ¬ leaked secret) {client : ℕ}
    (hreturned : ClientReturned crypto leaked world client secret nonceC nonceS) :
    ∃ server, ServerRan crypto leaked world server secret nonceC nonceS := by
  obtain ⟨session, own, rest, entry, identity, hclient, hrole, rfl, hstate⟩ := hreturned
  have hdone := (pskLocal crypto leaked session).state
  rw [hstate] at hdone
  obtain ⟨⟨own', rest', hrole', rfl⟩, hdrawn, _, _, hproof⟩ := hdone
  obtain ⟨rfl, rfl⟩ : own = own' ∧ rest = rest' := by simpa [hrole] using hrole'
  obtain ⟨serverSession, hserverMem, hsigned⟩ := signed_of_read hreach hsecret
    (List.mem_of_getElem? hclient) hproof (List.mem_singleton_self _)
  obtain ⟨server, hserver⟩ := List.mem_iff_getElem?.mp hserverMem
  rcases (pskLocal crypto leaked serverSession).signed _ hsigned with
    ⟨_, nonceC', nonceS', _, _, hcontent⟩ | ⟨entry, nonceC', nonceS', hchallenged, hcontent⟩
  · exact absurd (Prod.mk.inj hcontent).2 (macInput_disjoint _ _ _ _)
  · obtain ⟨hkey, hinput⟩ := Prod.mk.inj hcontent
    obtain ⟨rfl, rfl⟩ := macInput_injective (hdrawn.length.trans hchallenged.length.symm) hinput
    obtain ⟨entries, auth, hserverRole, hauth, hentry⟩ := hchallenged.configured
    obtain ⟨hint, hheard⟩ := hchallenged.heard
    rw [(newMultiPSKAuth_eq_ok hauth).1] at hentry
    obtain ⟨named, hnamed, rfl⟩ := List.mem_map.mp hentry
    exact ⟨server, serverSession, entries, named, hint, hserver, hserverRole, hnamed,
      (crypto.hkdf_injective hkey).symm, hheard, hchallenged.drawn, by
        rw [hkey]
        exact hchallenged.sent⟩

/-- The label of the codes a role sends. -/
def PSKRole.sentLabel (role : PSKRole) : String :=
  if role.isServer then macLabelServer else macLabelClient

/-- The label of the codes a role accepts. -/
def PSKRole.acceptedLabel (role : PSKRole) : String :=
  if role.isServer then macLabelClient else macLabelServer

omit [DecidableEq Tag] in
theorem mac_sent_ne_accepted {sender receiver : PSKRole}
    (hsame : sender.isServer = receiver.isServer) (key key' : Key)
    (nonceA nonceB nonceA' nonceB' : Bytes) :
    mac crypto key sender.sentLabel nonceA nonceB ≠
      mac crypto key' receiver.acceptedLabel nonceA' nonceB' := by
  unfold PSKRole.sentLabel PSKRole.acceptedLabel
  rw [hsame]
  split
  · exact mac_disjoint crypto _ _ _ _ _ _
  · exact (mac_disjoint crypto _ _ _ _ _ _).symm

theorem written_tag (session : PSKSession Tag)
    (hmessage : message ∈ (pskNetwork crypto leaked).written session) {tag : Tag}
    (htag : tag ∈ message.tags) :
    ∃ key nonceA nonceB, tag = mac crypto key session.role.sentLabel nonceA nonceB := by
  rcases pskNetwork_traceable session message hmessage tag htag with hheld | ⟨signed, hsigned, rfl⟩
  · cases hheld
  · have hlocal := pskLocal crypto leaked session
    rcases hlocal.signed signed hsigned with
      ⟨entry, nonceC, nonceS, result, hstate, rfl⟩ | ⟨entry, nonceC, nonceS, hchallenged, rfl⟩
    · have hdone := hlocal.state
      rw [hstate] at hdone
      obtain ⟨⟨own, rest, hrole, _⟩, _⟩ := hdone
      exact ⟨entry.key, nonceS, nonceC, by simp [hrole, PSKRole.sentLabel, PSKRole.isServer, mac]⟩
    · obtain ⟨entries, auth, hrole, _⟩ := hchallenged.configured
      exact ⟨entry.key, nonceC, nonceS, by simp [hrole, PSKRole.sentLabel, PSKRole.isServer, mac]⟩

theorem Accepted.tags_eq {session : PSKSession Tag} (haccepted : Accepted crypto leaked session message) :
    ∃ key nonceA nonceB, message.tags = [mac crypto key session.role.acceptedLabel nonceA nonceB] := by
  obtain ⟨⟨io, hio, hmessage⟩, hfinished⟩ := haccepted
  have hlocal := (pskLocal crypto leaked session).state
  split at hfinished
  · next entry nonceC nonceS result hstate =>
    rw [hstate] at hlocal
    obtain ⟨⟨own, rest, hrole, _⟩, _, _, _, io', hio', hread⟩ := hlocal
    obtain rfl : io = io' := Option.some.inj (hio.symm.trans hio')
    obtain rfl := Except.ok.inj (hmessage.symm.trans hread)
    exact ⟨entry.key, nonceC, nonceS, by
      simp [hrole, PSKRole.acceptedLabel, PSKRole.isServer, AuthMessage.tags]⟩
  · next entry nonceC nonceS identity hstate =>
    rw [hstate] at hlocal
    obtain ⟨hchallenged, _, io', hio', hread⟩ := hlocal
    obtain ⟨entries, auth, hrole, _⟩ := hchallenged.configured
    obtain rfl : io = io' := Option.some.inj (hio.symm.trans hio')
    obtain rfl := Except.ok.inj (hmessage.symm.trans hread)
    exact ⟨entry.key, nonceS, nonceC, by
      simp [hrole, PSKRole.acceptedLabel, PSKRole.isServer, AuthMessage.tags]⟩
  · exact hfinished.elim

/-- In every reachable world the runs under a secret that has not leaked agree. -/
theorem psk_agreement (hreach : (pskNetwork crypto leaked).machine.Reachable world)
    (hsecret : ¬ leaked secret) : PSKAgreement crypto leaked world secret where
  server_matched _ _ _ _ hnamed hreturned := hreturned.matched hreach hsecret hnamed
  servers_distinct _ _ _ _ _ _ _ _ _ hreturned hreturned' hran hran' := by
    obtain ⟨rfl, rfl⟩ := hran.nonces_eq hran'
    exact hreturned.unique hreach hreturned'
  client_matched _ _ _ hreturned := hreturned.matched hreach hsecret
  directions := by
    intro sender _ receiver _ hsame sent hsent message haccepted
    obtain ⟨key, nonceA, nonceB, htags⟩ := haccepted.tags_eq
    rw [htags]
    refine ⟨by simp, fun tag htag hreflected ↦ ?_⟩
    obtain ⟨key', nonceA', nonceB', hmac⟩ := written_tag sender hsent hreflected
    rw [List.mem_singleton] at htag
    exact mac_sent_ne_accepted hsame key' key nonceA' nonceB' nonceA nonceB (hmac.symm.trans htag)

end Network

section Example

/-- Keys and codes that spell out what they were made from. -/
def freePSK : PSKCrypto (String × String) (FreeTag (String × String) Bytes) where
  toIdealMac := FreeTag.mac
  hkdf secret info := (secret, info)
  hkdf_injective heq := (Prod.mk.inj heq).1

def viewer : NamedSecret := ⟨"viewer", "hunter2", ⟨false, false, false⟩⟩

def helloNonce : Nonce := ⟨List.replicate 32 1, by decide⟩

def proofNonce : Nonce := ⟨List.replicate 32 2, by decide⟩

def viewerMac (label : String) (nonceA nonceB : Nonce) : FreeTag (String × String) Bytes :=
  mac freePSK (derivePSKKey freePSK viewer.secret) label nonceA.1 nonceB.1

/-- One client and one server with every message delivered. -/
def viewerRun : List (NetworkAction PSKRole (PSKSegment (FreeTag (String × String) Bytes))) :=
  [.spawn (.server [⟨"owner", "spare", ⟨true, true, true⟩⟩, viewer]), .spawn (.client [viewer]),
    .feed 1 ⟨.error "", .ok helloNonce, .ok (), ()⟩,
    .feed 0 ⟨.ok (.clientHello helloNonce.1 "viewer"), .ok proofNonce, .ok (), ()⟩,
    .feed 1 ⟨.ok (.serverProof proofNonce.1 (viewerMac macLabelServer helloNonce proofNonce)),
      .error "", .ok (), ()⟩,
    .feed 0 ⟨.ok (.clientProof (viewerMac macLabelClient proofNonce helloNonce)), .error "", .ok (), ()⟩]

def viewerWorld : PSKWorld (FreeTag (String × String) Bytes) :=
  (pskNetwork freePSK (· = "spare")).machine.run [] viewerRun

instance (leaked : String → Prop) : DecidablePred (pskNetwork freePSK leaked).known :=
  fun _ ↦ .isFalse id

theorem viewerWorld_reachable :
    (pskNetwork freePSK (· = "spare")).machine.Reachable viewerWorld :=
  Network.reachable_of_replay (fun _ ↦ False) (by simp) (by decide)

theorem viewerWorld_returned :
    ServerReturned freePSK (· = "spare") viewerWorld 0 viewer helloNonce.1 proofNonce.1 :=
  ⟨_, _, newEntry freePSK viewer, rfl, rfl, by decide, rfl⟩

/-- The server of the run returned the viewer's identity, and its client is found. -/
theorem psk_agreement_viewer :
    ServerReturned freePSK (· = "spare") viewerWorld 0 viewer helloNonce.1 proofNonce.1 ∧
      PSKAgreement freePSK (· = "spare") viewerWorld "hunter2" :=
  ⟨viewerWorld_returned, psk_agreement viewerWorld_reachable (by decide)⟩

end Example

end Mosey.Auth
