import Mosey.MoseySession.Program

/-!
# Who may change what

Sessions are created by their own key and never go away; their owner and epoch change only by the
hand of the owner of that moment, and so do the grants of a session. What carries this through any
sequence of transactions is that every account lies at the address derived from what it holds: the
constraints of an instruction pin an address, and the address pins the content.
-/

namespace Mosey.MoseySession

open Library Wallet

section Authority

variable (derivation : AddressDerivation)

/-- What holds of the accounts in every reachable state. -/
structure WellFormed (ledger : Ledger) : Prop where
  sessions : ∀ address session, ledger address = some (.session session) →
    derivation.find (sessionSeeds session.sessionKey) = some (address, session.bump)
  grants : ∀ address grant, ledger address = some (.grant grant) →
    derivation.find (grantSeeds grant.session grant.grantee) = some (address, grant.bump) ∧
      grant.caps.subset allCaps = true ∧
      ∃ session, ledger grant.session = some (.session session) ∧ grant.epoch ≤ session.epoch

/-- The instruction has changed nothing without the signature it needs. -/
structure Authorized (signers : List Pubkey) (instruction : Instruction) (before after : Ledger) :
    Prop where
  created : ∀ address session, after address = some (.session session) →
    (∃ session', before address = some (.session session')) ∨ session.sessionKey ∈ signers
  kept : ∀ address session, before address = some (.session session) →
    ∃ session', after address = some (.session session') ∧
      session'.sessionKey = session.sessionKey ∧
      (session'.owner = session.owner ∨ session.owner ∈ signers ∧
        instruction = .transferOwnership address session.owner session'.owner) ∧
      (session'.epoch = session.epoch ∨ session'.epoch.toNat = session.epoch.toNat + 1 ∧
        session.owner ∈ signers ∧ instruction = .bumpEpoch address session.owner)
  grants : ∀ address grant, before address ≠ after address →
    before address = some (.grant grant) ∨ after address = some (.grant grant) →
      ∃ session, before grant.session = some (.session session) ∧ session.owner ∈ signers

/-- One instruction after another, each authorized in the state it runs in. -/
inductive AuthorizedRun (signers : List Pubkey) : Ledger → List Instruction → Ledger → Prop
  | nil (ledger : Ledger) : AuthorizedRun signers ledger [] ledger
  | cons {instruction : Instruction} {rest : List Instruction} {before middle after : Ledger} :
      Authorized signers instruction before middle → WellFormed derivation middle →
      AuthorizedRun signers middle rest after → AuthorizedRun signers before (instruction :: rest) after

/-- The owner of the session at this address has not signed. -/
def OwnerUnsigned (privileges : Privileges) (ledger : Ledger) (address : Pubkey) : Prop :=
  ∀ session, ledger address = some (.session session) → session.owner ∉ privileges.signers

/-- The instruction lacks a signature, has an unknown caps bit or would overflow the epoch. -/
def Forbidden (privileges : Privileges) (ledger : Ledger) : Instruction → Prop
  | .registerSession _ sessionKey owner _ =>
    sessionKey ∉ privileges.signers ∨ owner ∉ privileges.signers
  | .transferOwnership address _ _ => OwnerUnsigned privileges ledger address
  | .grant address _ _ _ _ caps _ =>
    OwnerUnsigned privileges ledger address ∨ caps.subset allCaps = false
  | .revoke address _ _ => OwnerUnsigned privileges ledger address
  | .bumpEpoch address _ => OwnerUnsigned privileges ledger address ∨
      ∀ session, ledger address = some (.session session) → session.epoch.toNat + 1 = 2 ^ 16

/-- Sessions stay, with their key, and their epoch never decreases. -/
def SessionsKept (earlier later : Ledger) : Prop :=
  ∀ address session, earlier address = some (.session session) →
    ∃ session', later address = some (.session session') ∧
      session'.sessionKey = session.sessionKey ∧ session.epoch ≤ session'.epoch

/-- What one transaction does in this state, whoever has signed it. -/
structure Authority (ledger : Ledger) (transaction : Transaction) : Prop where
  wellFormed : WellFormed derivation ledger
  succeeded : ∀ after events, transaction.run derivation ledger = .ok (after, events) →
    process derivation ledger transaction = after ∧
      AuthorizedRun derivation transaction.privileges.signers ledger transaction.instructions after
  failed : ∀ error, transaction.run derivation ledger = .error error →
    process derivation ledger transaction = ledger
  rejected : ∀ done middle events instruction rest,
    transaction.instructions = done ++ instruction :: rest →
      executeAll derivation transaction.privileges ledger done = .ok (middle, events) →
        Forbidden transaction.privileges middle instruction →
          ∃ error, transaction.run derivation ledger = .error error

variable {derivation} {privileges : Privileges} {ledger before after : Ledger}

variable {address : Pubkey} {bump : UInt8} {instruction : Instruction} {signers : List Pubkey}
  {events : List Event}

/-- The content of one address is replaced. A session that lies there stays one, with no lower epoch. -/
theorem WellFormed.update (hwell : WellFormed derivation ledger) {data : Option AccountData}
    (hsession : ∀ session, data = some (.session session) →
      derivation.find (sessionSeeds session.sessionKey) = some (address, session.bump))
    (hkept : ∀ session, ledger address = some (.session session) →
      ∃ session', data = some (.session session') ∧ session.epoch ≤ session'.epoch)
    (hgrant : ∀ grant, data = some (.grant grant) →
      derivation.find (grantSeeds grant.session grant.grantee) = some (address, grant.bump) ∧
        grant.caps.subset allCaps = true ∧
        ∃ session, ledger grant.session = some (.session session) ∧ grant.epoch ≤ session.epoch) :
    WellFormed derivation (Function.update ledger address data) := by
  have hparent {grant : Grant}
      (hfound : ∃ session, ledger grant.session = some (.session session) ∧ grant.epoch ≤ session.epoch) :
      ∃ session, Function.update ledger address data grant.session = some (.session session) ∧
        grant.epoch ≤ session.epoch := by
    obtain ⟨session, hstored, hle⟩ := hfound
    by_cases hsame : grant.session = address
    · rw [hsame] at hstored ⊢
      obtain ⟨session', hdata, hepoch⟩ := hkept session hstored
      exact ⟨session', by rw [Function.update_self, hdata], UInt16.le_trans hle hepoch⟩
    · exact ⟨session, by rw [Function.update_of_ne hsame, hstored], hle⟩
  constructor
  · intro other session hstored
    by_cases hother : other = address
    · subst hother
      rw [Function.update_self] at hstored
      exact hsession session hstored
    · rw [Function.update_of_ne hother] at hstored
      exact hwell.sessions other session hstored
  · intro other grant hstored
    by_cases hother : other = address
    · subst hother
      rw [Function.update_self] at hstored
      obtain ⟨hfind, hcaps, hfound⟩ := hgrant grant hstored
      exact ⟨hfind, hcaps, hparent hfound⟩
    · rw [Function.update_of_ne hother] at hstored
      obtain ⟨hfind, hcaps, hfound⟩ := hwell.grants other grant hstored
      exact ⟨hfind, hcaps, hparent hfound⟩

/-- A session may change its owner and raise its epoch. -/
theorem WellFormed.updateSession (hwell : WellFormed derivation ledger) {session session' : Session}
    (hfound : ledger address = some (.session session))
    (hkey : session'.sessionKey = session.sessionKey) (hbump : session'.bump = session.bump)
    (hepoch : session.epoch ≤ session'.epoch) :
    WellFormed derivation (Function.update ledger address (some (.session session'))) := by
  refine hwell.update ?_ ?_ (by simp)
  · rintro _ ⟨⟩
    rw [hkey, hbump]
    exact hwell.sessions address session hfound
  · intro stored hstored
    obtain rfl : session = stored := by simpa [hfound] using hstored
    exact ⟨session', rfl, hepoch⟩

theorem toNat_epoch_add_one {epoch : UInt16} (hlimit : epoch.toNat + 1 < 2 ^ 16) :
    (epoch + 1).toNat = epoch.toNat + 1 := by
  rw [UInt16.toNat_add]
  exact Nat.mod_eq_of_lt hlimit

/-- No instruction leaves a ledger that is not well formed. -/
theorem Effect.wellFormed (heffect : Effect derivation privileges before instruction after)
    (hwell : WellFormed derivation before) : WellFormed derivation after := by
  cases heffect with
  | registerSession _ _ hfind hnone =>
    refine hwell.update ?_ (by simp [hnone]) (by simp)
    rintro _ ⟨⟩
    exact hfind
  | transferOwnership howned => exact hwell.updateSession howned.found rfl rfl (UInt16.le_refl _)
  | grant howned hfind hfree hcaps =>
    refine hwell.update (by simp) (fun session hstored ↦ absurd hstored (hfree session)) ?_
    rintro _ ⟨⟩
    exact ⟨hfind, hcaps, _, howned.found, UInt16.le_refl _⟩
  | revoke _ hgrant _ => exact hwell.update (by simp) (by simp [hgrant]) (by simp)
  | bumpEpoch howned hlimit =>
    refine hwell.updateSession howned.found rfl rfl ?_
    rw [UInt16.le_iff_toNat_le, toNat_epoch_add_one hlimit]
    omega

/-- The content of one address is replaced. Grants that come or go there belong to a session whose owner
has signed. -/
theorem Authorized.update {data : Option AccountData}
    (hcreated : ∀ session, data = some (.session session) →
      (∃ session', before address = some (.session session')) ∨ session.sessionKey ∈ signers)
    (hkept : ∀ session, before address = some (.session session) →
      ∃ session', data = some (.session session') ∧ session'.sessionKey = session.sessionKey ∧
        (session'.owner = session.owner ∨ session.owner ∈ signers ∧
          instruction = .transferOwnership address session.owner session'.owner) ∧
        (session'.epoch = session.epoch ∨ session'.epoch.toNat = session.epoch.toNat + 1 ∧
          session.owner ∈ signers ∧ instruction = .bumpEpoch address session.owner))
    (hgrants : ∀ grant, before address = some (.grant grant) ∨ data = some (.grant grant) →
      ∃ session, before grant.session = some (.session session) ∧ session.owner ∈ signers) :
    Authorized signers instruction before (Function.update before address data) := by
  constructor
  · intro other session hstored
    by_cases hother : other = address
    · subst hother
      rw [Function.update_self] at hstored
      exact hcreated session hstored
    · rw [Function.update_of_ne hother] at hstored
      exact .inl ⟨session, hstored⟩
  · intro other session hstored
    by_cases hother : other = address
    · subst hother
      rw [Function.update_self]
      exact hkept session hstored
    · exact ⟨session, by rw [Function.update_of_ne hother, hstored], rfl, .inl rfl, .inl rfl⟩
  · intro other grant hchanged hgrant
    have hother : other = address := by
      by_contra hne
      exact hchanged (Function.update_of_ne hne ..).symm
    subst hother
    rw [Function.update_self] at hgrant
    exact hgrants grant hgrant

/-- A session is replaced by one with the same key. -/
theorem Authorized.updateSession {session session' : Session}
    (hfound : before address = some (.session session))
    (hkey : session'.sessionKey = session.sessionKey)
    (howner : session'.owner = session.owner ∨ session.owner ∈ signers ∧
      instruction = .transferOwnership address session.owner session'.owner)
    (hepoch : session'.epoch = session.epoch ∨ session'.epoch.toNat = session.epoch.toNat + 1 ∧
      session.owner ∈ signers ∧ instruction = .bumpEpoch address session.owner) :
    Authorized signers instruction before
      (Function.update before address (some (.session session'))) := by
  refine .update (fun _ _ ↦ .inl ⟨session, hfound⟩) ?_ (by simp [hfound])
  intro stored hstored
  obtain rfl : session = stored := by simpa [hfound] using hstored
  exact ⟨session', rfl, hkey, howner, hepoch⟩

/-- The address of a grant names its session. -/
theorem WellFormed.session_eq (hwell : WellFormed derivation ledger) {address session grantee : Pubkey}
    {grant : Grant} (hgrant : ledger address = some (.grant grant))
    (hcreate : derivation.create (grantSeeds session grantee ++ [bump]) = some address) :
    grant.session = session ∧ grant.grantee = grantee := by
  have hown := AddressDerivation.create_of_find (hwell.grants address grant hgrant).1
  have hseeds := AddressDerivation.create_seeds_injective hown hcreate
  exact grantSeeds_injective hseeds.1

theorem OwnerSigned.owner_signed {address owner : Pubkey} {session : Session}
    (howned : OwnerSigned derivation privileges ledger address owner session) :
    session.owner ∈ privileges.signers := by
  rw [howned.owner_eq]
  exact howned.signed

/-- Every change of an instruction is authorized by its signers. -/
theorem Effect.authorized (heffect : Effect derivation privileges before instruction after)
    (hwell : WellFormed derivation before) :
    Authorized privileges.signers instruction before after := by
  cases heffect with
  | registerSession hsigned _ _ hnone =>
    refine .update ?_ (by simp [hnone]) (by simp [hnone])
    rintro _ ⟨⟩
    exact .inr hsigned
  | transferOwnership howned =>
    refine .updateSession howned.found rfl (.inr ⟨howned.owner_signed, ?_⟩) (.inl rfl)
    rw [howned.owner_eq]
  | grant howned hfind hfree _ =>
    refine .update (by simp) (fun session hstored ↦ absurd hstored (hfree session)) ?_
    intro grant hgrant
    rcases hgrant with hold | hnew
    · have hcreate := AddressDerivation.create_of_find hfind
      rw [(hwell.session_eq hold hcreate).1]
      exact ⟨_, howned.found, howned.owner_signed⟩
    · obtain rfl := AccountData.grant.inj (Option.some.inj hnew)
      exact ⟨_, howned.found, howned.owner_signed⟩
  | revoke howned hstored hcreate =>
    refine .update (by simp) (by simp [hstored]) ?_
    intro grant hgrant
    rcases hgrant with hold | hnew
    · rw [hstored] at hold
      obtain rfl := AccountData.grant.inj (Option.some.inj hold)
      rw [(hwell.session_eq hstored hcreate).1]
      exact ⟨_, howned.found, howned.owner_signed⟩
    · cases hnew
  | bumpEpoch howned hlimit =>
    refine .updateSession howned.found rfl (.inl rfl)
      (.inr ⟨toNat_epoch_add_one hlimit, howned.owner_signed, ?_⟩)
    rw [howned.owner_eq]

theorem OwnerSigned.not_unsigned {address owner : Pubkey} {session : Session}
    (howned : OwnerSigned derivation privileges ledger address owner session) :
    ¬ OwnerUnsigned privileges ledger address :=
  fun hunsigned ↦ hunsigned session howned.found howned.owner_signed

/-- An instruction that has an effect was not forbidden. -/
theorem Effect.not_forbidden (heffect : Effect derivation privileges before instruction after) :
    ¬ Forbidden privileges before instruction := by
  cases heffect with
  | registerSession hkey howner _ _ =>
    rintro (hunsigned | hunsigned)
    · exact hunsigned hkey
    · exact hunsigned howner
  | transferOwnership howned => exact howned.not_unsigned
  | grant howned _ _ hcaps =>
    rintro (hunsigned | hunknown)
    · exact howned.not_unsigned hunsigned
    · rw [hcaps] at hunknown
      cases hunknown
  | revoke howned _ _ => exact howned.not_unsigned
  | bumpEpoch howned hlimit =>
    rintro (hunsigned | hoverflow)
    · exact howned.not_unsigned hunsigned
    · have heq := hoverflow _ howned.found
      omega

/-! ## Transactions -/

theorem executeAll_cons_eq_ok {rest : List Instruction} :
    executeAll derivation privileges before (instruction :: rest) = .ok (after, events) ↔
      ∃ middle event events', execute derivation privileges before instruction = .ok (middle, event) ∧
        executeAll derivation privileges middle rest = .ok (after, events') ∧
        events = event :: events' := by
  simp only [executeAll, bind_eq_ok, Prod.exists]
  constructor
  · rintro ⟨middle, event, hfirst, last, events', hrest, hresult⟩
    obtain ⟨rfl, rfl⟩ := Prod.mk.inj (Except.ok.inj hresult)
    exact ⟨middle, event, events', hfirst, hrest, rfl⟩
  · rintro ⟨middle, event, events', hfirst, hrest, rfl⟩
    exact ⟨middle, event, hfirst, after, events', hrest, rfl⟩

theorem executeAll_append_eq_ok {done rest : List Instruction}
    (hrun : executeAll derivation privileges before (done ++ rest) = .ok (after, events)) :
    ∃ middle events' events'', executeAll derivation privileges before done = .ok (middle, events') ∧
      executeAll derivation privileges middle rest = .ok (after, events'') := by
  induction done generalizing before events with
  | nil => exact ⟨before, [], events, rfl, hrun⟩
  | cons instruction done ih =>
    obtain ⟨next, event, others, hfirst, hothers, _⟩ := executeAll_cons_eq_ok.mp hrun
    obtain ⟨middle, events', events'', hdone, hrest⟩ := ih hothers
    refine ⟨middle, event :: events', events'', ?_, hrest⟩
    exact executeAll_cons_eq_ok.mpr ⟨next, event, events', hfirst, hdone, rfl⟩

/-- A transaction that succeeds is a sequence of authorized changes. -/
theorem authorizedRun_of_executeAll {instructions : List Instruction}
    (hwell : WellFormed derivation before)
    (hrun : executeAll derivation privileges before instructions = .ok (after, events)) :
    WellFormed derivation after ∧
      AuthorizedRun derivation privileges.signers before instructions after := by
  induction instructions generalizing before events with
  | nil =>
    obtain ⟨rfl, _⟩ := Prod.mk.inj (Except.ok.inj hrun)
    exact ⟨hwell, .nil before⟩
  | cons instruction rest ih =>
    obtain ⟨middle, event, events', hfirst, hrest, _⟩ := executeAll_cons_eq_ok.mp hrun
    have heffect := effect_of_execute hfirst
    have hmiddle := heffect.wellFormed hwell
    have htail := ih hmiddle hrest
    exact ⟨htail.1, .cons (heffect.authorized hwell) hmiddle htail.2⟩

variable (derivation) in
/-- A transaction is applied as a whole or not at all. -/
theorem process_cases (ledger : Ledger) (transaction : Transaction) :
    (∃ after events, transaction.run derivation ledger = .ok (after, events) ∧
        process derivation ledger transaction = after) ∨
      ∃ error, transaction.run derivation ledger = .error error ∧
        process derivation ledger transaction = ledger := by
  unfold process
  split
  · next after events hrun => exact .inl ⟨after, events, hrun, rfl⟩
  · next error hrun => exact .inr ⟨error, hrun, rfl⟩

variable (derivation) in
theorem legal_machine (ledger : Ledger) (transactions : List Transaction) :
    (machine derivation).Legal ledger transactions := by
  induction transactions generalizing ledger with
  | nil => trivial
  | cons transaction rest ih => exact ⟨trivial, ih _⟩

/-- Every ledger that transactions lead to is well formed. -/
theorem wellFormed_of_reachable (hreach : (machine derivation).Reachable ledger) :
    WellFormed derivation ledger := by
  refine hreach.invariant (P := WellFormed derivation) ?_ ?_
  · constructor
    · intro address session hnone
      cases hnone
    · intro address grant hnone
      cases hnone
  · intro before transaction _ hwell _
    change WellFormed derivation (process derivation before transaction)
    rcases process_cases derivation before transaction with
      ⟨after, events, hrun, hafter⟩ | ⟨error, _, hsame⟩
    · rw [hafter]
      exact (authorizedRun_of_executeAll hwell hrun).1
    · rw [hsame]
      exact hwell

theorem SessionsKept.refl (ledger : Ledger) : SessionsKept ledger ledger :=
  fun _ session hsession ↦ ⟨session, hsession, rfl, UInt16.le_refl _⟩

theorem SessionsKept.trans (first second third : Ledger) (hfirst : SessionsKept first second)
    (hsecond : SessionsKept second third) : SessionsKept first third := by
  intro address session hsession
  obtain ⟨session', hsession', hkey, hepoch⟩ := hfirst address session hsession
  obtain ⟨session'', hsession'', hkey', hepoch'⟩ := hsecond address session' hsession'
  exact ⟨session'', hsession'', hkey'.trans hkey, UInt16.le_trans hepoch hepoch'⟩

theorem Authorized.sessionsKept (hauthorized : Authorized signers instruction before after) :
    SessionsKept before after := by
  intro address session hsession
  obtain ⟨session', hsession', hkey, _, hepoch⟩ := hauthorized.kept address session hsession
  refine ⟨session', hsession', hkey, ?_⟩
  rw [UInt16.le_iff_toNat_le]
  rcases hepoch with hsame | ⟨hnext, _⟩
  · exact Nat.le_of_eq (congrArg UInt16.toNat hsame.symm)
  · omega

theorem AuthorizedRun.sessionsKept {instructions : List Instruction}
    (hrun : AuthorizedRun derivation signers before instructions after) :
    SessionsKept before after := by
  induction hrun with
  | nil ledger => exact .refl ledger
  | cons hfirst _ _ ih => exact .trans _ _ _ hfirst.sessionsKept ih

/-- No run of transactions removes a session, changes its key or lowers its epoch. -/
theorem sessionsKept_run {transactions : List Transaction}
    (hreach : (machine derivation).Reachable ledger)
    (hlegal : (machine derivation).Legal ledger transactions) :
    SessionsKept ledger ((machine derivation).run ledger transactions) := by
  refine Machine.run_related SessionsKept.refl SessionsKept.trans ?_ hreach hlegal
  intro before transaction hbefore _
  change SessionsKept before (process derivation before transaction)
  rcases process_cases derivation before transaction with
    ⟨after, events, hrun, hafter⟩ | ⟨error, _, hsame⟩
  · rw [hafter]
    exact (authorizedRun_of_executeAll (wellFormed_of_reachable hbefore) hrun).2.sessionsKept
  · rw [hsame]
    exact .refl before

/-- Whatever transactions are sent by whomever, every change of a session or a grant carries the
signature it needs, every account lies at its own address with fitting content, failed transactions
change nothing, and sessions keep their key and never lower their epoch. -/
theorem ledger_changes_authorized (hreach : (machine derivation).Reachable ledger)
    (transactions : List Transaction) :
    (∀ transaction, Authority derivation ledger transaction) ∧
      SessionsKept ledger ((machine derivation).run ledger transactions) := by
  have hwell := wellFormed_of_reachable hreach
  refine ⟨fun transaction ↦ ⟨hwell, ?_, ?_, ?_⟩, ?_⟩
  · intro after events hrun
    refine ⟨by rw [process, hrun], ?_⟩
    exact (authorizedRun_of_executeAll hwell hrun).2
  · intro error hrun
    rw [process, hrun]
  · intro done middle events instruction rest hinstructions hdone hforbidden
    cases hrun : transaction.run derivation ledger with
    | error error => exact ⟨error, rfl⟩
    | ok result =>
      rw [Transaction.run, hinstructions] at hrun
      obtain ⟨middle', events', _, hdone', hrest⟩ := executeAll_append_eq_ok hrun
      obtain ⟨rfl, _⟩ := Prod.mk.inj (Except.ok.inj (hdone.symm.trans hdone'))
      obtain ⟨next, event, _, hfirst, _⟩ := executeAll_cons_eq_ok.mp hrest
      exact absurd hforbidden (effect_of_execute hfirst).not_forbidden
  · exact sessionsKept_run hreach (legal_machine derivation ledger transactions)

end Authority

section Example

theorem ledger_changes_authorized_example :
    exampleLedger (freeKey 12) =
        some (.grant ⟨freeKey 11, freeKey 4, capWrite, 60, 0, 255⟩) ∧
      (∀ transaction, Authority exampleDerivation exampleLedger transaction) ∧
      SessionsKept exampleLedger
        ((machine exampleDerivation).run exampleLedger [exampleTransaction]) :=
  ⟨by decide +kernel, ledger_changes_authorized exampleLedger_reachable [exampleTransaction]⟩

end Example

end Mosey.MoseySession
