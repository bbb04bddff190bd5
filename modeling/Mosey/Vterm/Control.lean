import Mathlib.Data.List.Forall2
import Mosey.Vterm.Geometry
import Mosey.Vterm.Modes

/-!
# Control messages

A control stream carries typed messages, which are handled one by one. Most of them are gated by the
capabilities that the sender's identity was given at the handshake, not by what the session lets its
PTY client do at the time. Messages about the sender itself act on the client that its remote
attached last.
-/

namespace Mosey.Vterm

open Library Auth

/-- The payload of a message. Enumerations are open, so a kind may be any number. -/
inductive ControlMessage
  | resize (cols rows : UInt32)
  | signal (kind : ℤ)
  | setMode (kind : ℤ)
  | demote
  | listClients
  | clientList
  | promote (clientID : ℤ)
  | kick (clientID : ℤ)
  | unknown
  deriving DecidableEq

inductive Signal
  | hup
  | int
  | term
  | usr1
  | usr2
  deriving DecidableEq

structure ClientInfo where
  clientID : ℕ
  label : String
  canWrite : Bool
  cols : UInt32
  rows : UInt32
  deriving DecidableEq

inductive LogLevel
  | debug
  | info
  | warn
  deriving DecidableEq

/-- What handling a message does outside the session. -/
inductive ControlEffect
  | signal (signal : Signal)
  | setSize (cols rows : UInt16)
  | reply (clients : List ClientInfo)
  | log (level : LogLevel) (message : String) (err : Option String)
  deriving DecidableEq

/-- The mode that a kind stands for. -/
def modeFromAPI (kind : ℤ) : Mode :=
  if kind = 1 then .supersede
  else if kind = 2 then .exclusive
  else if kind = 3 then .primaryObserver
  else if kind = 4 then .multiWrite
  else .unspecified

/-- The name of a signal kind, or its number. -/
def signalKindText (kind : ℤ) : String := if kind = 0 then "KIND_UNSPECIFIED" else toString kind

/-- The signal to send to the child, which may not have been started. -/
def applySignal (started : Bool) (kind : ℤ) : Except String Signal :=
  let allowed : Option Signal :=
    if kind = 1 then some .hup
    else if kind = 2 then some .int
    else if kind = 3 then some .term
    else if kind = 4 then some .usr1
    else if kind = 5 then some .usr2
    else none
  match allowed with
  | none => .error ("signal kind " ++ signalKindText kind ++ " not allowed")
  | some signal => if started then .ok signal else .error "signal: child process not running"

namespace Session

/-- The registry, in the order of admission. -/
def listClients (session : Session) : List ClientInfo :=
  (session.clients.filter (·.registered)).map fun client ↦
    ⟨client.id, client.identity.label, client.canWrite, client.cols, client.rows⟩

/-- What is done with the minimum that a resize leaves. -/
def resizeEffects (size : UInt32 × UInt32) : List ControlEffect :=
  if size.1 = 0 ∨ size.2 = 0 then []
  else [.setSize (applyPTYSize size).1 (applyPTYSize size).2, .log .debug "pty resized" none]

def applyResize (session : Session) (remote : String) (cols rows : UInt32) :
    Except String (Session × List ControlEffect) :=
  if cols = 0 ∨ rows = 0 then
    .error ("resize ignored: zero dimension (cols=" ++ toString cols.toNat ++ " rows=" ++
      toString rows.toNat ++ ")")
  else
    let resized := session.applyResizeForRemote remote cols rows
    .ok (resized.1, resizeEffects resized.2)

/-- What one message does, to the session and beyond it. An id that is not positive names no client. -/
def handleControl (session : Session) (started : Bool) (remote : String) (identity : Identity) :
    ControlMessage → Session × List ControlEffect
  | .resize cols rows =>
    if identity.canResize = false then
      (session, [.log .debug "control resize denied (no Resize cap)" none])
    else
      match session.applyResize remote cols rows with
      | .error err => (session, [.log .warn "control resize" (some err)])
      | .ok result => result
  | .signal kind =>
    if identity.canWrite = false then
      (session, [.log .debug "control signal denied (no Write cap)" none])
    else
      match applySignal started kind with
      | .error err => (session, [.log .warn "control signal" (some err)])
      | .ok signal => (session, [.signal signal, .log .debug "signal forwarded" none])
  | .setMode kind =>
    if identity.isOwner = false then
      (session, [.log .info "control set_mode denied (no Owner cap)" none])
    else if modeFromAPI kind = .unspecified then
      (session, [.log .warn "control set_mode: unspecified kind" none])
    else ((session.setMode (modeFromAPI kind)).1, [.log .info "mode switched" none])
  | .demote =>
    match session.demoteRemote remote with
    | (_, false) => (session, [.log .debug "control demote: no PTY client for remote" none])
    | (demoted, true) => (demoted, [.log .info "client self-demoted to observer" none])
  | .listClients => (session, [.reply session.listClients])
  | .promote clientID =>
    if identity.isOwner = false then
      (session, [.log .info "control promote denied (no Owner cap)" none])
    else
      match session.promoteClient clientID.toNat with
      | (_, false) => (session, [.log .info "control promote: no such client" none])
      | (promoted, true) => (promoted, [.log .info "client promoted" none])
  | .kick clientID =>
    if identity.isOwner = false then
      (session, [.log .info "control kick denied (no Owner cap)" none])
    else
      match session.kickClient clientID.toNat with
      | (_, false) => (session, [.log .info "control kick: no such client" none])
      | (kicked, true) => (kicked, [.log .info "client kicked" none])
  | .clientList => (session, [.log .warn "control: unexpected client_list from peer" none])
  | .unknown => (session, [.log .warn "control: unknown payload" none])

/-- What handling a message can come to, and for whom. -/
inductive Handled (session : Session) (started : Bool) (remote : String) (identity : Identity) :
    ControlMessage → Session × List ControlEffect → Prop
  | ignored {message : ControlMessage} {level : LogLevel} {text : String} {err : Option String} :
      Handled session started remote identity message (session, [.log level text err])
  | listed : Handled session started remote identity .listClients (session, [.reply session.listClients])
  | signalled {kind : ℤ} {signal : Signal} : identity.canWrite = true → started = true →
      Handled session started remote identity (.signal kind)
        (session, [.signal signal, .log .debug "signal forwarded" none])
  | resized {cols rows : UInt32} : identity.canResize = true →
      Handled session started remote identity (.resize cols rows)
        ((session.applyResizeForRemote remote cols rows).1,
          resizeEffects (session.applyResizeForRemote remote cols rows).2)
  | demoted {text : String} : Handled session started remote identity .demote
      (session.step (.demoteRemote remote), [.log .info text none])
  | managed {message : ControlMessage} {action : SessionAction} {text : String} :
      identity.isOwner = true →
      ((∃ mode, action = .setMode mode) ∨ (∃ id, action = .promoteClient id) ∨
        ∃ id, action = .kickClient id) →
      Handled session started remote identity message (session.step action, [.log .info text none])

theorem applySignal_eq_ok {started : Bool} {kind : ℤ} {signal : Signal}
    (hsignal : applySignal started kind = .ok signal) : started = true := by
  simp only [applySignal] at hsignal
  split at hsignal
  · cases hsignal
  · split_ifs at hsignal with hstarted
    exact hstarted

/-- What each control message can do, with the permission that it takes. -/
theorem handled_handleControl (session : Session) (started : Bool) (remote : String)
    (identity : Identity) (message : ControlMessage) :
    session.Handled started remote identity message
      (session.handleControl started remote identity message) := by
  cases message with
  | resize cols rows =>
    simp only [handleControl, applyResize]
    split_ifs with hdenied hzero
    · exact .ignored
    · exact .ignored
    · exact .resized (by simpa using hdenied)
  | signal kind =>
    simp only [handleControl]
    split_ifs with hdenied
    · exact .ignored
    · split
      · exact .ignored
      · next signal hsignal => exact .signalled (by simpa using hdenied) (applySignal_eq_ok hsignal)
  | setMode kind =>
    simp only [handleControl]
    split_ifs with hdenied
    · exact .ignored
    · exact .ignored
    · exact .managed (by simpa using hdenied) (.inl ⟨modeFromAPI kind, rfl⟩)
  | demote =>
    simp only [handleControl]
    split
    · exact .ignored
    · next demoted hdemoted =>
      have hstep : demoted = session.step (.demoteRemote remote) := by rw [step, hdemoted]
      rw [hstep]
      exact .demoted
  | promote clientID =>
    simp only [handleControl]
    split_ifs with hdenied
    · exact .ignored
    · split
      · exact .ignored
      · next promoted hpromoted =>
        have hstep : promoted = session.step (.promoteClient clientID.toNat) := by
          rw [step, hpromoted]
        rw [hstep]
        exact .managed (by simpa using hdenied) (.inr (.inl ⟨_, rfl⟩))
  | kick clientID =>
    simp only [handleControl]
    split_ifs with hdenied
    · exact .ignored
    · split
      · exact .ignored
      · next kicked hkicked =>
        have hstep : kicked = session.step (.kickClient clientID.toNat) := by rw [step, hkicked]
        rw [hstep]
        exact .managed (by simpa using hdenied) (.inr (.inr ⟨_, rfl⟩))
  | listClients => exact .listed
  | clientList | unknown => exact .ignored

/-- The registered client of this remote with the greatest id. -/
structure IsLatest (session : Session) (remote : String) (client : SessionClient) : Prop where
  mem : client ∈ session.clients
  registered : client.registered = true
  remote_eq : client.remote = remote
  latest : ∀ other ∈ session.clients, other.registered = true → other.remote = remote →
    other.id ≤ client.id

/-- One step of the search for the latest client of a remote. -/
def laterClient (remote : String) (latest : Option SessionClient) (client : SessionClient) :
    Option SessionClient :=
  if ¬ (client.registered ∧ client.remote = remote) then latest
  else
    match latest with
    | none => some client
    | some found => if found.id < client.id then some client else some found

theorem clientByRemoteIDLocked_eq (session : Session) (remote : String) :
    session.clientByRemoteIDLocked remote = session.clients.foldl (laterClient remote) none := rfl

variable {session : Session} {remote : String} {client : SessionClient}

theorem laterClient_cases {latest : Option SessionClient} :
    (laterClient remote latest client = latest ∧
        ((client.registered = true → client.remote ≠ remote) ∨
          ∃ found ∈ latest, client.id ≤ found.id)) ∨
      (laterClient remote latest client = some client ∧ client.registered = true ∧
        client.remote = remote ∧ ∀ found ∈ latest, found.id ≤ client.id) := by
  unfold laterClient
  split_ifs with hmatch
  · cases latest with
    | none => exact .inr ⟨rfl, hmatch.1, hmatch.2, by simp⟩
    | some found =>
      by_cases hless : found.id < client.id
      · simp only [hless, if_true]
        exact .inr ⟨trivial, hmatch.1, hmatch.2, by simpa using Nat.le_of_lt hless⟩
      · simp only [hless, if_false]
        exact .inl ⟨trivial, .inr ⟨found, rfl, Nat.le_of_not_lt hless⟩⟩
  · exact .inl ⟨rfl, .inl fun hregistered hremote ↦ hmatch ⟨hregistered, hremote⟩⟩

/-- The fold over the registry finds the latest client of a remote. -/
theorem foldl_laterClient (clients : List SessionClient) (latest : Option SessionClient) :
    (∀ client ∈ clients, client.registered = true → client.remote = remote →
        ∃ found ∈ clients.foldl (laterClient remote) latest, client.id ≤ found.id) ∧
      (∀ client ∈ latest, ∃ found ∈ clients.foldl (laterClient remote) latest,
        client.id ≤ found.id) ∧
      ∀ found ∈ clients.foldl (laterClient remote) latest, found ∈ latest ∨
        found ∈ clients ∧ found.registered = true ∧ found.remote = remote := by
  induction clients generalizing latest with
  | nil => exact ⟨by simp, fun client hclient ↦ ⟨client, hclient, Nat.le_refl _⟩, by simp⟩
  | cons head rest ih =>
    obtain ⟨hrest, hkept, hfound⟩ := ih (laterClient remote latest head)
    rw [List.foldl_cons]
    -- the accumulator only moves to later clients
    have hlatest : ∀ client ∈ latest, ∃ next ∈ laterClient remote latest head,
        client.id ≤ next.id := by
      intro client hclient
      rcases laterClient_cases with ⟨hsame, _⟩ | ⟨hnew, _, _, hlater⟩
      · exact ⟨client, by rwa [hsame], Nat.le_refl _⟩
      · exact ⟨head, by rw [hnew]; rfl, hlater client hclient⟩
    have hhead : head.registered = true → head.remote = remote →
        ∃ next ∈ laterClient remote latest head, head.id ≤ next.id := by
      intro hregistered hremote
      rcases laterClient_cases with ⟨hsame, hother | ⟨found, hmem, hle⟩⟩ | ⟨hnew, _⟩
      · exact absurd hremote (hother hregistered)
      · exact ⟨found, by rwa [hsame], hle⟩
      · exact ⟨head, by rw [hnew]; rfl, Nat.le_refl _⟩
    refine ⟨?_, ?_, ?_⟩
    · intro client hclient hregistered hremote
      rcases List.mem_cons.mp hclient with rfl | hclient
      · obtain ⟨next, hnext, hle⟩ := hhead hregistered hremote
        obtain ⟨found, hmem, hle'⟩ := hkept next hnext
        exact ⟨found, hmem, Nat.le_trans hle hle'⟩
      · exact hrest client hclient hregistered hremote
    · intro client hclient
      obtain ⟨next, hnext, hle⟩ := hlatest client hclient
      obtain ⟨found, hmem, hle'⟩ := hkept next hnext
      exact ⟨found, hmem, Nat.le_trans hle hle'⟩
    · intro found hmem
      rcases hfound found hmem with hacc | ⟨hlist, hregistered, hremote⟩
      · rcases laterClient_cases with ⟨hsame, _⟩ | ⟨hnew, hregistered, hremote, _⟩
        · rw [hsame] at hacc
          exact .inl hacc
        · rw [hnew] at hacc
          obtain rfl := Option.some.inj hacc
          exact .inr ⟨List.mem_cons_self, hregistered, hremote⟩
      · exact .inr ⟨List.mem_cons_of_mem _ hlist, hregistered, hremote⟩

/-- The client found for a remote is the latest one. -/
theorem isLatest_of_clientByRemoteIDLocked
    (hfound : session.clientByRemoteIDLocked remote = some client) :
    session.IsLatest remote client := by
  rw [clientByRemoteIDLocked_eq] at hfound
  obtain ⟨hlatest, _, hmem⟩ := @foldl_laterClient remote session.clients none
  rcases hmem client hfound with hnone | ⟨hclient, hregistered, hremote⟩
  · cases hnone
  refine ⟨hclient, hregistered, hremote, fun other hother hregistered hremote ↦ ?_⟩
  obtain ⟨found, hsome, hle⟩ := hlatest other hother hregistered hremote
  rw [hfound] at hsome
  rwa [Option.some.inj hsome]

/-- Ids name clients, so what is done under the id of the latest client is done to it alone. -/
theorem Numbered.isLatest_of_is (hnumbered : session.Numbered) {found : SessionClient}
    (hfound : session.clientByRemoteIDLocked remote = some found) (hclient : client ∈ session.clients)
    (his : client.Is found.id) : session.IsLatest remote client := by
  have hlatest := isLatest_of_clientByRemoteIDLocked hfound
  rwa [hnumbered.eq_of_id hclient hlatest.mem his.2]

/-! ## What a sender without Owner cannot change -/

/-- What a message leaves of a client. -/
structure ClientFrame (session : Session) (remote : String) (identity : Identity)
    (before after : SessionClient) : Prop where
  id : after.id = before.id
  registered : after.registered = before.registered
  kicked : after.kicked = before.kicked
  canWrite : after.canWrite = true → before.canWrite = true
  geometry : identity.canResize = false → after.cols = before.cols ∧ after.rows = before.rows
  others : ¬ session.IsLatest remote before →
    after.canWrite = before.canWrite ∧ after.cols = before.cols ∧ after.rows = before.rows

structure ControlFrame (session : Session) (remote : String) (identity : Identity)
    (result : Session × List ControlEffect) : Prop where
  mode : result.1.mode = session.mode
  clients : List.Forall₂ (session.ClientFrame remote identity) session.clients result.1.clients
  writerID : result.1.writerID = session.writerID ∨
    ∃ client, session.IsLatest remote client ∧ session.writerID = client.id ∧ result.1.writerID = 0
  pendingResize : ∀ other, result.1.pendingResize other ≠ session.pendingResize other →
    other = remote ∧ identity.canResize = true
  signal : ∀ signal, .signal signal ∈ result.2 → identity.canWrite = true

variable {identity : Identity}

theorem clientFrame_refl (client : SessionClient) : session.ClientFrame remote identity client client :=
  ⟨rfl, rfl, rfl, fun h ↦ h, fun _ ↦ ⟨rfl, rfl⟩, fun _ ↦ ⟨rfl, rfl, rfl⟩⟩

variable {effects : List ControlEffect}

/-- A message that leaves the session as it is. -/
theorem controlFrame_same (hsignal : ∀ signal, .signal signal ∈ effects → identity.canWrite = true) :
    session.ControlFrame remote identity (session, effects) where
  mode := rfl
  clients := List.forall₂_same.mpr fun client _ ↦ clientFrame_refl client
  writerID := .inl rfl
  pendingResize _ hchanged := absurd rfl hchanged
  signal := hsignal

/-- The clients after an operation that admits none. -/
theorem forall₂_step {action : SessionAction} {relation : SessionClient → SessionClient → Prop}
    (hadmitted : session.admitted action = [])
    (hafter : ∀ client ∈ session.clients, relation client (session.after action client)) :
    List.Forall₂ relation session.clients (session.step action).clients := by
  rw [clients_step, hadmitted, List.append_nil, List.forall₂_map_right_iff]
  exact List.forall₂_same.mpr hafter

theorem clientFrame_resize (hnumbered : session.Numbered) (hresize : identity.canResize = true)
    (cols rows : UInt32) (hclient : client ∈ session.clients) :
    session.ClientFrame remote identity client
      (session.after (.applyResizeForRemote remote cols rows) client) := by
  simp only [after]
  split
  · exact clientFrame_refl client
  · next found hfound =>
    split
    · next his =>
      refine ⟨rfl, rfl, rfl, fun h ↦ h, fun hdenied ↦ ?_, fun hother ↦ ?_⟩
      · rw [hresize] at hdenied
        cases hdenied
      · exact absurd (hnumbered.isLatest_of_is hfound hclient his) hother
    · exact clientFrame_refl client

theorem clientFrame_demote (hnumbered : session.Numbered) (hclient : client ∈ session.clients) :
    session.ClientFrame remote identity client (session.after (.demoteRemote remote) client) := by
  simp only [after]
  split
  · exact clientFrame_refl client
  · next found hfound =>
    split
    · next his =>
      refine ⟨rfl, rfl, rfl, fun hset ↦ absurd hset Bool.false_ne_true, fun _ ↦ ⟨rfl, rfl⟩,
        fun hother ↦ ?_⟩
      exact absurd (hnumbered.isLatest_of_is hfound hclient his) hother
    · exact clientFrame_refl client

theorem controlFrame_resize (hnumbered : session.Numbered) (hresize : identity.canResize = true)
    (cols rows : UInt32) (hsignal : ∀ signal, .signal signal ∉ effects) :
    session.ControlFrame remote identity
      ((session.applyResizeForRemote remote cols rows).1, effects) where
  mode := @mode_step session (.applyResizeForRemote remote cols rows) (by simp)
  clients := @forall₂_step session (.applyResizeForRemote remote cols rows) _ rfl
    fun _ hclient ↦ clientFrame_resize hnumbered hresize cols rows hclient
  writerID := by
    left
    simp only [applyResizeForRemote, onClient]
    split <;> rfl
  pendingResize := by
    intro other hchanged
    refine ⟨?_, hresize⟩
    by_contra hother
    apply hchanged
    simp only [applyResizeForRemote, onClient]
    split
    · exact Function.update_of_ne hother _ _
    · rfl
  signal signal hmem := absurd hmem (hsignal signal)

theorem controlFrame_demote (hnumbered : session.Numbered)
    (hsignal : ∀ signal, .signal signal ∉ effects) :
    session.ControlFrame remote identity (session.step (.demoteRemote remote), effects) where
  mode := mode_step (by simp)
  clients := forall₂_step rfl fun _ hclient ↦ clientFrame_demote hnumbered hclient
  writerID := by
    cases hfound : session.clientByRemoteIDLocked remote with
    | none =>
      left
      simp [step, demoteRemote, hfound]
    | some found =>
      by_cases hseat : session.writerID = found.id
      · right
        refine ⟨found, isLatest_of_clientByRemoteIDLocked hfound, hseat, ?_⟩
        simp [step, demoteRemote, hfound, onClient, hseat]
      · left
        simp [step, demoteRemote, hfound, onClient, hseat]
  pendingResize := by
    intro other hchanged
    refine absurd ?_ hchanged
    simp only [step, demoteRemote, onClient]
    split <;> rfl
  signal signal hmem := absurd hmem (hsignal signal)

/-- Whatever a sender without Owner sends, it changes nothing but the permission and the geometry of
the client its remote attached last. -/
theorem handleControl_frame {mode : Mode} (hreach : (machine mode).Reachable session) (started : Bool)
    (remote : String) (howner : identity.isOwner = false) (message : ControlMessage) :
    session.ControlFrame remote identity (session.handleControl started remote identity message) := by
  have hnumbered : session.Numbered := hreach.invariant rfl
    fun _ action _ hnumbered _ ↦ numbered_step hnumbered action
  have hhandled := session.handled_handleControl started remote identity message
  generalize session.handleControl started remote identity message = result at hhandled
  cases hhandled with
  | ignored | listed => exact controlFrame_same (by simp)
  | signalled hwrite _ => exact controlFrame_same fun _ _ ↦ hwrite
  | @resized cols rows hresize =>
    apply controlFrame_resize hnumbered hresize
    unfold resizeEffects
    split_ifs <;> simp
  | demoted => exact controlFrame_demote hnumbered (by simp)
  | managed hmanaged _ =>
    rw [howner] at hmanaged
    cases hmanaged

end Session

/-- The seat holder steps down. -/
theorem handleControl_frame_demote :
    ((Session.ran .primaryObserver exampleSeats).handleControl true "beta" exampleWriter
        .demote).1.writerID = 0 ∧
      (Session.ran .primaryObserver exampleSeats).ControlFrame "beta" exampleWriter
        ((Session.ran .primaryObserver exampleSeats).handleControl true "beta" exampleWriter .demote) :=
  ⟨by decide, Session.handleControl_frame (Session.reachable_ran .primaryObserver exampleSeats) true
    "beta" rfl .demote⟩

end Mosey.Vterm
