import Mosey.Vterm.Modes

/-!
# The fan-out of output

`broadcast` offers every chunk to every registered client, and `bridgeClient` offers the replay to its own.
An offer to a client whose channel is full is skipped. What a client is sent is a function of its own
events alone: what is offered to it, what its goroutine takes from the channel and when it leaves. No other
client appears in it.
-/

namespace Mosey.Vterm

open Library Auth

/-- What the fan-out knows of a client. -/
structure Mailbox where
  outCh : Channel Bytes clientBufferChunks
  dropped : ℕ
  registered : Bool
  deriving DecidableEq

/-- Bytes for the channel of a client: a chunk of `broadcast`, or the replay of its attach. -/
inductive Offer
  | live (chunk : Bytes)
  | replay (bytes : Bytes)
  deriving DecidableEq

def Offer.bytes : Offer → Bytes
  | live chunk => chunk
  | replay bytes => bytes

/-- Only a chunk needs the client to be in the registry. -/
def Offer.reaches (registered : Bool) : Offer → Bool
  | live _ => registered
  | replay _ => true

inductive ClientEvent
  | offer (offer : Offer)
  | receive
  | leave
  deriving DecidableEq

namespace Mailbox

def fresh : Mailbox := ⟨.empty, 0, true⟩

/-- What meets a full channel is counted and left out; later offers are sent again. -/
def send (mailbox : Mailbox) (bytes : Bytes) : Mailbox :=
  match mailbox.outCh.trySend bytes with
  | some outCh => { mailbox with outCh := outCh }
  | none => { mailbox with dropped := mailbox.dropped + 1 }

def handle (mailbox : Mailbox) : ClientEvent → Mailbox
  | .offer offer => if offer.reaches mailbox.registered then mailbox.send offer.bytes else mailbox
  | .receive => { mailbox with outCh := mailbox.outCh.receive }
  | .leave => { mailbox with registered := false }

def deliver (events : List ClientEvent) : Mailbox := events.foldl handle fresh

end Mailbox

/-- The offers that reach the client, which is registered or not at the beginning. -/
def offersFrom (registered : Bool) : List ClientEvent → List Offer
  | [] => []
  | .offer offer :: rest =>
    if offer.reaches registered then offer :: offersFrom registered rest else offersFrom registered rest
  | .receive :: rest => offersFrom registered rest
  | .leave :: rest => offersFrom false rest

/-- The chunks that are broadcast until the client leaves, and its replay. -/
def offers (events : List ClientEvent) : List Offer := offersFrom true events

def SessionClient.mailbox (client : SessionClient) : Mailbox :=
  ⟨client.outCh, client.dropped, client.registered⟩

/-- What an operation means to the fan-out of one client. -/
def SessionAction.event? (id : ℕ) : SessionAction → Option ClientEvent
  | .broadcast chunk => some (.offer (.live chunk))
  | .sendReplay other replay => if other = id then some (.offer (.replay replay)) else none
  | .receive other => if other = id then some .receive else none
  | .removeClient other => if other = id then some .leave else none
  | .shutdown => some .leave
  | _ => none

def ownEvents (id : ℕ) (actions : List SessionAction) : List ClientEvent :=
  actions.filterMap (SessionAction.event? id)

namespace Mailbox

theorem registered_send (mailbox : Mailbox) (bytes : Bytes) :
    (mailbox.send bytes).registered = mailbox.registered := by
  unfold send
  split <;> rfl

/-- An offer is sent if the channel has room, and is counted otherwise. -/
theorem send_cases (mailbox : Mailbox) (bytes : Bytes) :
    (mailbox.send bytes).outCh.sent = mailbox.outCh.sent ++ [bytes] ∧
        (mailbox.send bytes).dropped = mailbox.dropped ∧ mailbox.outCh.HasRoom ∨
      (mailbox.send bytes).outCh.sent = mailbox.outCh.sent ∧
        (mailbox.send bytes).dropped = mailbox.dropped + 1 ∧ ¬ mailbox.outCh.HasRoom := by
  cases hsend : mailbox.outCh.trySend bytes with
  | some outCh =>
    obtain ⟨hroom, hsent, _⟩ := Channel.trySend_eq_some hsend
    simp [send, hsend, hsent, hroom]
  | none =>
    have hfull := Channel.trySend_eq_none.mp hsend
    simp [send, hsend, hfull]

/-- An offer that reaches the client goes to its queue. -/
theorem handle_offer {mailbox : Mailbox} {offer : Offer}
    (hreaches : offer.reaches mailbox.registered = true) :
    mailbox.handle (.offer offer) = mailbox.send offer.bytes :=
  if_pos hreaches

theorem handle_offer_of_not {mailbox : Mailbox} {offer : Offer}
    (hreaches : offer.reaches mailbox.registered = false) : mailbox.handle (.offer offer) = mailbox := by
  simp [handle, hreaches]

theorem taken_send (mailbox : Mailbox) (bytes : Bytes) :
    (mailbox.send bytes).outCh.taken = mailbox.outCh.taken := by
  cases hsend : mailbox.outCh.trySend bytes with
  | none => simp [send, hsend]
  | some outCh => simp [send, hsend, Channel.taken_trySend hsend]

/-- What a client is sent is what is offered to it, without the offers it is skipped for. -/
theorem foldl_handle (mailbox : Mailbox) (events : List ClientEvent) :
    ∃ kept : List Offer,
      (events.foldl handle mailbox).outCh.sent = mailbox.outCh.sent ++ kept.map Offer.bytes ∧
      kept.Sublist (offersFrom mailbox.registered events) ∧
      kept.length + (events.foldl handle mailbox).dropped =
        (offersFrom mailbox.registered events).length + mailbox.dropped := by
  induction events generalizing mailbox with
  | nil => exact ⟨[], by simp, List.Sublist.refl _, rfl⟩
  | cons event rest ih =>
    rw [List.foldl_cons]
    cases event with
    | offer offer =>
      rw [offersFrom]
      cases hreaches : offer.reaches mailbox.registered with
      | false =>
        rw [handle_offer_of_not hreaches]
        exact ih mailbox
      | true =>
        obtain ⟨kept, hsent, hsublist, hcount⟩ := ih (mailbox.send offer.bytes)
        rw [registered_send] at hsublist hcount
        rw [handle_offer hreaches, if_pos rfl]
        rcases mailbox.send_cases offer.bytes with ⟨hnew, hdropped, _⟩ | ⟨hold, hdropped, _⟩
        · refine ⟨offer :: kept, ?_, hsublist.cons_cons offer, ?_⟩
          · rw [hsent, hnew, List.append_assoc, List.singleton_append, List.map_cons]
          · rw [List.length_cons, List.length_cons]
            omega
        · refine ⟨kept, ?_, hsublist.cons offer, ?_⟩
          · rw [hsent, hold]
          · rw [List.length_cons]
            omega
    | receive =>
      obtain ⟨kept, hsent, hrest⟩ := ih (mailbox.handle .receive)
      refine ⟨kept, ?_, hrest⟩
      rw [hsent]
      simp [handle]
    | leave => exact ih (mailbox.handle .leave)

end Mailbox

theorem SessionClient.mailbox_offer (client : SessionClient) (bytes : Bytes) :
    (client.offer bytes).mailbox = client.mailbox.send bytes := by
  cases hsend : client.outCh.trySend bytes <;>
    simp [SessionClient.offer, Mailbox.send, SessionClient.mailbox, hsend]

namespace Session

variable {session : Session} {action : SessionAction}

/-- A step does to a client's mailbox what the client's own event says. -/
theorem mailbox_after (session : Session) (action : SessionAction) (client : SessionClient) :
    (session.after action client).mailbox =
      (action.event? client.id).elim client.mailbox client.mailbox.handle := by
  cases action with
  | addClient | kickClient =>
    simp only [after, SessionAction.event?]
    split <;> rfl
  | removeClient id =>
    simp only [after, SessionAction.event?, SessionClient.Is]
    by_cases hid : client.id = id
    · by_cases hregistered : client.registered = true <;>
        simp [hid, hregistered, SessionClient.mailbox, SessionClient.leave, SessionClient.kick,
          Mailbox.handle]
    · simp [hid, Ne.symm hid]
  | promoteClient id =>
    simp only [after, SessionAction.event?]
    split_ifs <;> rfl
  | demoteRemote | applyResizeForRemote =>
    simp only [after, SessionAction.event?]
    split
    · rfl
    · split <;> rfl
  | setMode mode => rfl
  | broadcast chunk =>
    simp only [after, SessionAction.event?, Option.elim, Mailbox.handle, Offer.reaches, Offer.bytes]
    rw [← SessionClient.mailbox_offer]
    exact apply_ite SessionClient.mailbox _ _ _
  | sendReplay id replay =>
    simp only [after, SessionAction.event?]
    by_cases hid : client.id = id
    · simp [hid, Mailbox.handle, Offer.reaches, Offer.bytes, SessionClient.mailbox_offer]
    · simp [hid, Ne.symm hid]
  | receive id =>
    simp only [after, SessionAction.event?]
    by_cases hid : client.id = id
    · simp [hid, SessionClient.mailbox, Mailbox.handle]
    · simp [hid, Ne.symm hid]
  | shutdown =>
    simp only [after, SessionAction.event?]
    cases hregistered : client.registered <;>
      simp [hregistered, SessionClient.mailbox, SessionClient.leave, SessionClient.kick,
        Mailbox.handle]

/-- Along any operations a client's mailbox follows its own events. -/
theorem mailbox_run (mode : Mode) {client : SessionClient} (hclient : client ∈ session.clients)
    (actions : List SessionAction) :
    ∃ later ∈ ((machine mode).run session actions).clients, later.id = client.id ∧
      later.mailbox = (ownEvents client.id actions).foldl Mailbox.handle client.mailbox := by
  induction actions generalizing session client with
  | nil => exact ⟨client, hclient, rfl, rfl⟩
  | cons action rest ih =>
    have hstep : session.after action client ∈ (session.step action).clients :=
      mem_step.mpr (.inl ⟨client, hclient, rfl⟩)
    obtain ⟨later, hlater, hid, hmailbox⟩ := ih hstep
    have hsame := (session.after_evolves action client).id
    refine ⟨later, hlater, hid.trans hsame, ?_⟩
    rw [hmailbox, hsame, mailbox_after]
    unfold ownEvents
    rw [List.filterMap_cons]
    cases hevent : action.event? client.id <;> rfl

theorem mailbox_of_addClientLocked {identity : Identity} {remote : String} {added : Session}
    {client : SessionClient} {size : UInt32 × UInt32}
    (hadd : session.addClientLocked identity remote = some (added, client, size)) :
    client.mailbox = .fresh := by
  obtain ⟨_, _, _, _, _, _, _, _, _, _, hout, _, _, hdropped, hregistered⟩ := addClientLocked_eq_some hadd
  simp [SessionClient.mailbox, Mailbox.fresh, hout, hdropped, hregistered]

/-- After these operations the client of this id has this mailbox. -/
def HasMailbox (mode : Mode) (actions : List SessionAction) (id : ℕ) (mailbox : Mailbox) : Prop :=
  ∃ client ∈ (ran mode actions).clients, client.id = id ∧ client.mailbox = mailbox

/-- After any actions a client has the mailbox of its own events. -/
theorem hasMailbox_ran {mode : Mode} {before : List SessionAction} {identity : Identity}
    {remote : String} {added : Session} {client : SessionClient} {size : UInt32 × UInt32}
    (hadd : (ran mode before).addClientLocked identity remote = some (added, client, size))
    (after : List SessionAction) :
    HasMailbox mode (before ++ .addClient identity remote :: after) client.id
      (Mailbox.deliver (ownEvents client.id after)) := by
  obtain ⟨_, _, _, _, _, hclients, _⟩ := addClientLocked_eq_some hadd
  have hmem : client ∈ added.clients := by simp [hclients]
  obtain ⟨later, hlater, hid, hmailbox⟩ := mailbox_run mode hmem after
  refine ⟨later, ?_, hid, ?_⟩
  · rw [List.append_cons, ran, Machine.run_append]
    rw [← step_addClient hadd, ← ran_concat] at hlater
    exact hlater
  · rw [hmailbox, mailbox_of_addClientLocked hadd]
    rfl

end Session

section Example

/-- A chunk comes between the attach and the replay, which has it too. -/
def exampleChunks : List SessionAction :=
  [.broadcast [0], .sendReplay 1 [0], .receive 1, .receive 2, .broadcast [1]]

/-- One client attaches, 256 chunks fill its channel and one more is dropped. -/
def exampleOverrun : List SessionAction :=
  .addClient exampleWriter "alpha" :: List.replicate clientBufferChunks (.broadcast [0]) ++
    [.broadcast [1]]

end Example

end Mosey.Vterm
