import Mosey.Library.History
import Mosey.MoseySession.Authority
import Mosey.MoseySession.Layout
import Mosey.WalletSolana.Source

/-!
# The server's snapshot and the program's history

Two facts are carried along the history of successful instructions: a session account names the owner
that was set last, and a grant of the session's current epoch is what the last instruction about that
wallet granted. A bump raises the epoch above that of every grant, so it ends them all; a new grant
carries the new epoch. The server reads both facts off the accounts, in whatever order they come.
-/

namespace Mosey.MoseySession

open Library Wallet WalletSolana

/-- The accounts after a sequence of successful instructions, under whatever signatures. -/
inductive HistoryOf (derivation : AddressDerivation) : List Instruction → Ledger → Prop
  | nil : HistoryOf derivation [] fun _ ↦ none
  | concat {history : List Instruction} {before after : Ledger} {instruction : Instruction}
      {event : Event} (privileges : Privileges) : HistoryOf derivation history before →
      execute derivation privileges before instruction = .ok (after, event) →
      HistoryOf derivation (history ++ [instruction]) after

/-- The session that an instruction is about. -/
def Instruction.session : Instruction → Pubkey
  | .registerSession session _ _ _ => session
  | .transferOwnership session _ _ => session
  | .grant session _ _ _ _ _ _ => session
  | .revoke session _ _ => session
  | .bumpEpoch session _ => session

/-- A registration of the session by this owner, or a transfer to them. -/
def SetsOwner (location : Pubkey) (owner : PublicKey) : Instruction → Prop
  | .registerSession session _ newOwner _ => session = location ∧ newOwner.1 = owner
  | .transferOwnership session _ newOwner => session = location ∧ newOwner.1 = owner
  | _ => False

def Grants (location : Pubkey) (wallet : PublicKey) (caps : Caps) (expiry : Int64) :
    Instruction → Prop
  | .grant session _ _ _ grantee caps' expiry' =>
    session = location ∧ grantee.1 = wallet ∧ caps' = caps ∧ expiry' = expiry
  | _ => False

/-- A revocation names the wallet by the address of its grant. -/
def Revokes (derivation : AddressDerivation) (location : Pubkey) (wallet : PublicKey) :
    Instruction → Prop
  | .revoke session grantAddress _ => session = location ∧ ∃ grantee bump, grantee.1 = wallet ∧
      derivation.find (grantSeeds location grantee) = some (grantAddress, bump)
  | _ => False

def Bumps (location : Pubkey) : Instruction → Prop
  | .bumpEpoch session _ => session = location
  | _ => False

/-- The instructions that decide what a wallet is granted. -/
def Decides (derivation : AddressDerivation) (location : Pubkey) (wallet : PublicKey)
    (instruction : Instruction) : Prop :=
  (∃ caps expiry, Grants location wallet caps expiry instruction) ∨
    Revokes derivation location wallet instruction ∨ Bumps location instruction

/-- The accounts in an answer of `getProgramAccounts`. -/
def Lists (answer : List Account) (ledger : Ledger) : Prop :=
  ∀ account, account ∈ answer ↔
    ∃ location data, ledger location = some data ∧ account = programAccount location data

/-- A `Refresh` has sampled the accounts of this ledger and read them at this time, its loops in some
order; it succeeds and installs the snapshot, which `Snapshot` then serves. -/
def Refreshed (source : Source) (ledger : Ledger) (now : Time) (snap : Snapshot) : Prop :=
  ∃ (state later : SourceRun) (index slot : ℕ) (accounts sessionOrder grantOrder : List Account)
    (fetched : Fetched) (fresh : Bool),
    state.now = now ∧ state.refreshes[index]? = some (.sampled slot accounts) ∧
    Lists accounts ledger ∧ sessionOrder.Perm accounts ∧ grantOrder.Perm accounts ∧
    (state.build source index sessionOrder grantOrder).refreshes[index]? =
      some (.built slot fetched now) ∧
    later.refreshes[index]? = some (.built slot fetched now) ∧
    (later.install index).snapshot source = .ok (snap, fresh)

section History

variable {derivation : AddressDerivation} {privileges : Privileges} {history : List Instruction}
variable {ledger before after : Ledger} {instruction : Instruction}

theorem HistoryOf.wellFormed (hhistory : HistoryOf derivation history ledger) :
    WellFormed derivation ledger := by
  induction hhistory with
  | nil => exact ⟨by simp, by simp⟩
  | concat _ _ hexecute ih => exact (effect_of_execute hexecute).wellFormed ih

theorem HistoryOf.append_executeAll {instructions : List Instruction} {events : List Event}
    (hhistory : HistoryOf derivation history before)
    (hrun : executeAll derivation privileges before instructions = .ok (after, events)) :
    HistoryOf derivation (history ++ instructions) after := by
  induction instructions generalizing history before events with
  | nil =>
    obtain ⟨rfl, _⟩ := Prod.mk.inj (Except.ok.inj hrun)
    rwa [List.append_nil]
  | cons instruction rest ih =>
    obtain ⟨middle, event, events', hfirst, hrest, _⟩ := executeAll_cons_eq_ok.mp hrun
    rw [List.append_cons]
    exact ih (hhistory.concat privileges hfirst) hrest

/-- Whatever transactions have run, the accounts have a history of successful instructions. -/
theorem exists_historyOf_of_reachable (hreach : (machine derivation).Reachable ledger) :
    ∃ history, HistoryOf derivation history ledger := by
  refine hreach.invariant (P := fun ledger ↦ ∃ history, HistoryOf derivation history ledger)
    ⟨[], .nil⟩ ?_
  rintro before transaction _ ⟨history, hhistory⟩ _
  change ∃ history, HistoryOf derivation history (process derivation before transaction)
  rcases process_cases derivation before transaction with
    ⟨after, events, hrun, hafter⟩ | ⟨error, _, hsame⟩
  · rw [hafter]
    exact ⟨_, hhistory.append_executeAll hrun⟩
  · rw [hsame]
    exact ⟨history, hhistory⟩

/-- What lies at a location after an update lies at the updated one or was there before. -/
theorem update_eq_cases {target location : Pubkey} {data stored : Option AccountData}
    (hstored : Function.update ledger target data location = stored) :
    location = target ∧ data = stored ∨ location ≠ target ∧ ledger location = stored := by
  by_cases hsame : location = target
  · rw [hsame, Function.update_self] at hstored
    exact .inl ⟨hsame, hstored⟩
  · rw [Function.update_of_ne hsame] at hstored
    exact .inr ⟨hsame, hstored⟩

/-- A session account has the owner that the instruction sets, or the one it had. -/
theorem Effect.owner_cases (heffect : Effect derivation privileges before instruction after)
    {location : Pubkey} {session : Session} (hsession : after location = some (.session session)) :
    SetsOwner location session.owner.1 instruction ∨
      (¬ ∃ owner, SetsOwner location owner instruction) ∧
        ∃ session', before location = some (.session session') ∧ session'.owner = session.owner := by
  cases heffect with
  | registerSession _ _ _ _ =>
    rcases update_eq_cases hsession with ⟨rfl, hnew⟩ | ⟨hother, hold⟩
    · obtain rfl := AccountData.session.inj (Option.some.inj hnew)
      exact .inl ⟨rfl, rfl⟩
    · exact .inr ⟨fun ⟨_, hsame, _⟩ ↦ hother hsame.symm, session, hold, rfl⟩
  | transferOwnership _ =>
    rcases update_eq_cases hsession with ⟨rfl, hnew⟩ | ⟨hother, hold⟩
    · obtain rfl := AccountData.session.inj (Option.some.inj hnew)
      exact .inl ⟨rfl, rfl⟩
    · exact .inr ⟨fun ⟨_, hsame, _⟩ ↦ hother hsame.symm, session, hold, rfl⟩
  | grant _ _ _ _ =>
    rcases update_eq_cases hsession with ⟨_, hnew⟩ | ⟨_, hold⟩
    · cases hnew
    · exact .inr ⟨fun ⟨_, hsets⟩ ↦ hsets, session, hold, rfl⟩
  | revoke _ _ _ =>
    rcases update_eq_cases hsession with ⟨_, hnew⟩ | ⟨_, hold⟩
    · cases hnew
    · exact .inr ⟨fun ⟨_, hsets⟩ ↦ hsets, session, hold, rfl⟩
  | bumpEpoch howned _ =>
    rcases update_eq_cases hsession with ⟨rfl, hnew⟩ | ⟨_, hold⟩
    · obtain rfl := AccountData.session.inj (Option.some.inj hnew)
      exact .inr ⟨fun ⟨_, hsets⟩ ↦ hsets, _, howned.found, rfl⟩
    · exact .inr ⟨fun ⟨_, hsets⟩ ↦ hsets, session, hold, rfl⟩

theorem HistoryOf.latest_owner (hhistory : HistoryOf derivation history ledger) {location : Pubkey}
    {session : Session} (hsession : ledger location = some (.session session)) :
    Latest (SetsOwner location session.owner.1)
      (fun instruction ↦ ∃ owner, SetsOwner location owner instruction) history := by
  induction hhistory generalizing session with
  | nil => cases hsession
  | concat _ _ hexecute ih =>
    rw [latest_concat]
    rcases (effect_of_execute hexecute).owner_cases hsession with hsets | ⟨hnot, session', hold, howner⟩
    · exact .inl hsets
    · rw [← howner]
      exact .inr ⟨hnot, ih hold⟩

/-! ## The grants of the current epoch -/

def sessionEpoch (ledger : Ledger) (location : Pubkey) : Option UInt16 :=
  match ledger location with
  | some (.session session) => some session.epoch
  | _ => none

def Grant.HeldBy (grant : Grant) (location : Pubkey) (wallet : PublicKey) : Prop :=
  grant.session = location ∧ grant.grantee.1 = wallet

/-- A grant of the session's current epoch to this wallet. -/
def LiveGrant (ledger : Ledger) (location : Pubkey) (wallet : PublicKey) (caps : Caps)
    (expiry : Int64) : Prop :=
  ∃ grantAddress grant, ledger grantAddress = some (.grant grant) ∧ grant.HeldBy location wallet ∧
    sessionEpoch ledger location = some grant.epoch ∧ grant.caps = caps ∧ grant.expiry = expiry

variable {location : Pubkey} {wallet : PublicKey} {caps : Caps} {expiry : Int64}

theorem sessionEpoch_eq_some {epoch : UInt16} : sessionEpoch ledger location = some epoch ↔
    ∃ session, ledger location = some (.session session) ∧ session.epoch = epoch := by
  unfold sessionEpoch
  split <;> simp_all

/-- Only the session's epoch and the wallet's own grants matter. -/
theorem liveGrant_congr (hepoch : sessionEpoch after location = sessionEpoch before location)
    (hgrants : ∀ grantAddress grant, grant.HeldBy location wallet →
      (after grantAddress = some (.grant grant) ↔ before grantAddress = some (.grant grant))) :
    LiveGrant after location wallet caps expiry ↔ LiveGrant before location wallet caps expiry := by
  unfold LiveGrant
  rw [hepoch]
  apply exists_congr
  intro grantAddress
  apply exists_congr
  intro grant
  constructor
  · rintro ⟨hstored, hheld, hrest⟩
    exact ⟨(hgrants grantAddress grant hheld).mp hstored, hheld, hrest⟩
  · rintro ⟨hstored, hheld, hrest⟩
    exact ⟨(hgrants grantAddress grant hheld).mpr hstored, hheld, hrest⟩

/-- A wallet's grant lies at one address. -/
theorem WellFormed.grant_unique (hwell : WellFormed derivation ledger)
    {grantAddress grantAddress' : Pubkey} {grant grant' : Grant}
    (hgrant : ledger grantAddress = some (.grant grant)) (hheld : grant.HeldBy location wallet)
    (hgrant' : ledger grantAddress' = some (.grant grant')) (hheld' : grant'.HeldBy location wallet) :
    grantAddress = grantAddress' ∧ grant = grant' := by
  have hfind := (hwell.grants grantAddress grant hgrant).1
  have hfind' := (hwell.grants grantAddress' grant' hgrant').1
  have hgrantee : grant.grantee = grant'.grantee := Subtype.ext (hheld.2.trans hheld'.2.symm)
  rw [hheld.1, hgrantee] at hfind
  rw [hheld'.1, hfind] at hfind'
  obtain ⟨rfl, -⟩ := Prod.mk.inj (Option.some.inj hfind')
  rw [hgrant] at hgrant'
  exact ⟨rfl, AccountData.grant.inj (Option.some.inj hgrant')⟩

variable {target : Pubkey} {revoked : Grant}

theorem sessionEpoch_update_session {session : Session}
    (hepoch : location = target → sessionEpoch ledger location = some session.epoch) :
    sessionEpoch (Function.update ledger target (some (.session session))) location =
      sessionEpoch ledger location := by
  by_cases hsame : location = target
  · rw [hepoch hsame, hsame, sessionEpoch, Function.update_self]
  · rw [sessionEpoch, Function.update_of_ne hsame, sessionEpoch]

theorem sessionEpoch_update_grant {data : Option AccountData}
    (hfree : ∀ session, ledger target ≠ some (.session session))
    (hdata : ∀ session, data ≠ some (.session session)) :
    sessionEpoch (Function.update ledger target data) location = sessionEpoch ledger location := by
  ext epoch
  rw [sessionEpoch_eq_some, sessionEpoch_eq_some]
  apply exists_congr
  intro session
  by_cases hsame : location = target
  · rw [hsame, Function.update_self]
    simp [hfree session, hdata session]
  · rw [Function.update_of_ne hsame]

/-- A session account changes, but not the epoch of the session in question. -/
theorem liveGrant_update_session {session : Session}
    (hfree : ∀ grant, ledger target ≠ some (.grant grant))
    (hepoch : location = target → sessionEpoch ledger location = some session.epoch) :
    LiveGrant (Function.update ledger target (some (.session session))) location wallet caps expiry ↔
      LiveGrant ledger location wallet caps expiry := by
  apply liveGrant_congr (sessionEpoch_update_session hepoch)
  intro grantAddress grant _
  by_cases hsame : grantAddress = target
  · rw [hsame, Function.update_self]
    simp [hfree grant]
  · rw [Function.update_of_ne hsame]

/-- A grant account of another session or wallet changes. -/
theorem liveGrant_update_grant {data : Option AccountData}
    (hfree : ∀ session, ledger target ≠ some (.session session))
    (hdata : ∀ session, data ≠ some (.session session))
    (hother : ∀ grant, ledger target = some (.grant grant) ∨ data = some (.grant grant) →
      ¬ grant.HeldBy location wallet) :
    LiveGrant (Function.update ledger target data) location wallet caps expiry ↔
      LiveGrant ledger location wallet caps expiry := by
  apply liveGrant_congr (sessionEpoch_update_grant hfree hdata)
  intro grantAddress grant hheld
  by_cases hsame : grantAddress = target
  · rw [hsame, Function.update_self]
    exact ⟨fun hnew ↦ absurd hheld (hother grant (.inr hnew)),
      fun hold ↦ absurd hheld (hother grant (.inl hold))⟩
  · rw [Function.update_of_ne hsame]

/-- A session without an account has no grants. -/
theorem WellFormed.not_heldBy (hwell : WellFormed derivation ledger) (hnone : ledger location = none)
    {grantAddress : Pubkey} {grant : Grant} (hgrant : ledger grantAddress = some (.grant grant)) :
    ¬ grant.HeldBy location wallet := by
  intro hheld
  obtain ⟨_, _, session, hsession, _⟩ := hwell.grants grantAddress grant hgrant
  rw [hheld.1, hnone] at hsession
  cases hsession

theorem liveGrant_register (hwell : WellFormed derivation ledger) {session : Session}
    (hnone : ledger target = none) :
    LiveGrant (Function.update ledger target (some (.session session))) location wallet caps expiry ↔
      LiveGrant ledger location wallet caps expiry := by
  by_cases hsame : location = target
  · subst hsame
    -- a session without an account has no grants, before and after
    constructor
    · rintro ⟨grantAddress, grant, hstored, hheld, _⟩
      rcases update_eq_cases hstored with ⟨_, hnew⟩ | ⟨_, hold⟩
      · cases hnew
      · exact absurd hheld (hwell.not_heldBy hnone hold)
    · rintro ⟨grantAddress, grant, hstored, hheld, _⟩
      exact absurd hheld (hwell.not_heldBy hnone hstored)
  · exact liveGrant_update_session (by simp [hnone]) fun heq ↦ absurd heq hsame

/-- A wallet's new grant replaces the one it had. -/
theorem liveGrant_grant {granted : Grant}
    (hwell : WellFormed derivation (Function.update ledger target (some (.grant granted))))
    (hheld : granted.HeldBy location wallet)
    (hepoch : sessionEpoch (Function.update ledger target (some (.grant granted))) location =
      some granted.epoch) :
    LiveGrant (Function.update ledger target (some (.grant granted))) location wallet caps expiry ↔
      granted.caps = caps ∧ granted.expiry = expiry := by
  have hgranted : Function.update ledger target (some (.grant granted)) target =
      some (.grant granted) := Function.update_self ..
  constructor
  · rintro ⟨grantAddress, grant, hstored, hheld', _, hcaps, hexpiry⟩
    obtain ⟨-, rfl⟩ := hwell.grant_unique hstored hheld' hgranted hheld
    exact ⟨hcaps, hexpiry⟩
  · rintro ⟨hcaps, hexpiry⟩
    exact ⟨target, granted, hgranted, hheld, hepoch, hcaps, hexpiry⟩

theorem not_liveGrant_revoke (hwell : WellFormed derivation ledger)
    (hrevoked : ledger target = some (.grant revoked)) (hheld : revoked.HeldBy location wallet) :
    ¬ LiveGrant (Function.update ledger target none) location wallet caps expiry := by
  rintro ⟨grantAddress, grant, hstored, hheld', _⟩
  rcases update_eq_cases hstored with ⟨_, hnew⟩ | ⟨hne, hold⟩
  · cases hnew
  · exact hne (hwell.grant_unique hold hheld' hrevoked hheld).1

/-- The epoch after a bump is above that of every grant. -/
theorem not_liveGrant_bump (hwell : WellFormed derivation ledger) {session : Session}
    (hsession : ledger location = some (.session session)) (session' : Session)
    (hepoch : session'.epoch.toNat = session.epoch.toNat + 1) :
    ¬ LiveGrant (Function.update ledger location (some (.session session'))) location wallet caps
      expiry := by
  rintro ⟨grantAddress, grant, hstored, hheld, hcurrent, _⟩
  rw [sessionEpoch, Function.update_self] at hcurrent
  obtain hcurrent : session'.epoch = grant.epoch := Option.some.inj hcurrent
  rcases update_eq_cases hstored with ⟨_, hnew⟩ | ⟨_, hold⟩
  · cases hnew
  · obtain ⟨_, _, parent, hparent, hle⟩ := hwell.grants grantAddress grant hold
    rw [hheld.1, hsession] at hparent
    obtain rfl := AccountData.session.inj (Option.some.inj hparent)
    rw [UInt16.le_iff_toNat_le, ← hcurrent] at hle
    omega

theorem liveGrant_iff_of_grant (hwell : WellFormed derivation before)
    {target grantAddress owner systemProgram grantee : Pubkey} {newCaps : Caps} {newExpiry : Int64}
    {session : Session} {bump : UInt8} (hsession : before target = some (.session session))
    (hfind : derivation.find (grantSeeds target grantee) = some (grantAddress, bump))
    (hfree : ∀ other, before grantAddress ≠ some (.session other))
    (hafter : WellFormed derivation (Function.update before grantAddress
      (some (.grant ⟨target, grantee, newCaps, newExpiry, session.epoch, bump⟩)))) :
    LiveGrant (Function.update before grantAddress
        (some (.grant ⟨target, grantee, newCaps, newExpiry, session.epoch, bump⟩)))
        location wallet caps expiry ↔
      Grants location wallet caps expiry
          (.grant target grantAddress owner systemProgram grantee newCaps newExpiry) ∨
        ¬ Decides derivation location wallet
            (.grant target grantAddress owner systemProgram grantee newCaps newExpiry) ∧
          LiveGrant before location wallet caps expiry := by
  by_cases hheld : target = location ∧ grantee.1 = wallet
  · obtain ⟨rfl, rfl⟩ := hheld
    rw [liveGrant_grant hafter ⟨rfl, rfl⟩]
    · simp [Grants, Decides]
    · rw [sessionEpoch_update_grant hfree (by simp), sessionEpoch_eq_some]
      exact ⟨session, hsession, rfl⟩
  · rw [liveGrant_update_grant hfree (by simp)]
    · simp [Grants, Decides, Revokes, Bumps, ← and_assoc, hheld]
    · rintro stored (hold | hnew) ⟨hstored, hwallet⟩
      · have hsame := hwell.session_eq hold (AddressDerivation.create_of_find hfind)
        rw [hsame.1] at hstored
        rw [hsame.2] at hwallet
        exact hheld ⟨hstored, hwallet⟩
      · obtain rfl := AccountData.grant.inj (Option.some.inj hnew)
        exact hheld ⟨hstored, hwallet⟩

/-- A revocation is about the wallet whose grant it closes. -/
theorem decides_revoke_iff (hwell : WellFormed derivation before) {target grantAddress owner : Pubkey}
    (hrevoked : before grantAddress = some (.grant revoked))
    (hcreate : derivation.create (grantSeeds target revoked.grantee ++ [revoked.bump]) =
      some grantAddress) :
    Decides derivation location wallet (.revoke target grantAddress owner) ↔
      revoked.HeldBy location wallet := by
  have htarget := (hwell.session_eq hrevoked hcreate).1
  constructor
  · rintro (⟨_, _, hgrants⟩ | ⟨rfl, grantee, bump, rfl, hfind⟩ | hbumps)
    · exact hgrants.elim
    · have hseeds := AddressDerivation.create_seeds_injective
        (AddressDerivation.create_of_find hfind) hcreate
      rw [(grantSeeds_injective hseeds.1).2]
      exact ⟨htarget, rfl⟩
    · exact hbumps.elim
  · intro hheld
    have hfind := (hwell.grants grantAddress revoked hrevoked).1
    rw [hheld.1] at hfind
    exact .inr (.inl ⟨htarget.symm.trans hheld.1, revoked.grantee, revoked.bump, hheld.2, hfind⟩)

theorem liveGrant_iff_of_revoke (hwell : WellFormed derivation before)
    {target grantAddress owner : Pubkey} (hrevoked : before grantAddress = some (.grant revoked))
    (hcreate : derivation.create (grantSeeds target revoked.grantee ++ [revoked.bump]) =
      some grantAddress) :
    LiveGrant (Function.update before grantAddress none) location wallet caps expiry ↔
      Grants location wallet caps expiry (.revoke target grantAddress owner) ∨
        ¬ Decides derivation location wallet (.revoke target grantAddress owner) ∧
          LiveGrant before location wallet caps expiry := by
  rw [decides_revoke_iff hwell hrevoked hcreate]
  by_cases hheld : revoked.HeldBy location wallet
  · simp [Grants, hheld, not_liveGrant_revoke hwell hrevoked hheld]
  · rw [liveGrant_update_grant (by simp [hrevoked]) (by simp)]
    · simp [Grants, hheld]
    · rintro stored (hold | hnew)
      · rw [hrevoked] at hold
        obtain rfl := AccountData.grant.inj (Option.some.inj hold)
        exact hheld
      · cases hnew

/-- What an instruction does to the grants in force. -/
theorem Effect.liveGrant_iff (heffect : Effect derivation privileges before instruction after)
    (hwell : WellFormed derivation before) :
    LiveGrant after location wallet caps expiry ↔ Grants location wallet caps expiry instruction ∨
      ¬ Decides derivation location wallet instruction ∧
        LiveGrant before location wallet caps expiry := by
  have hafter := heffect.wellFormed hwell
  cases heffect with
  | registerSession _ _ _ hnone =>
    rw [liveGrant_register hwell hnone]
    simp [Grants, Decides, Revokes, Bumps]
  | @transferOwnership target owner newOwner session howned =>
    rw [liveGrant_update_session]
    · simp [Grants, Decides, Revokes, Bumps]
    · simp [howned.found]
    · rintro rfl
      exact sessionEpoch_eq_some.mpr ⟨session, howned.found, rfl⟩
  | grant howned hfind hfree _ => exact liveGrant_iff_of_grant hwell howned.found hfind hfree hafter
  | revoke _ hrevoked hcreate => exact liveGrant_iff_of_revoke hwell hrevoked hcreate
  | @bumpEpoch target owner session howned hlimit =>
    by_cases hsame : target = location
    · subst hsame
      constructor
      · intro hlive
        exact absurd hlive (not_liveGrant_bump hwell howned.found _ (toNat_epoch_add_one hlimit))
      · rintro (hgrants | ⟨hdecides, _⟩)
        · exact hgrants.elim
        · exact absurd (.inr (.inr rfl)) hdecides
    · rw [liveGrant_update_session (by simp [howned.found]) fun heq ↦ absurd heq.symm hsame]
      simp [Grants, Decides, Revokes, Bumps, hsame]

/-- The grant in force is the one that was decided on last. -/
theorem HistoryOf.liveGrant_iff (hhistory : HistoryOf derivation history ledger) :
    LiveGrant ledger location wallet caps expiry ↔
      Latest (Grants location wallet caps expiry) (Decides derivation location wallet) history := by
  induction hhistory with
  | nil =>
    constructor
    · rintro ⟨_, _, hstored, _⟩
      cases hstored
    · intro hlatest
      exact absurd hlatest not_latest_nil
  | concat _ hbefore hexecute ih =>
    rw [latest_concat, (effect_of_execute hexecute).liveGrant_iff hbefore.wellFormed, ih]

end History

/-! ## What the server reads -/

section Server

variable {derivation : AddressDerivation} {ledger : Ledger}
variable {answer sessionOrder grantOrder : List Account}
variable {programID : String} {sessionKey : Pubkey} {source : Source} {now : Time} {snap : Snapshot}

/-- What `Refresh` fetches of a ledger, in whatever order its loops see the accounts. -/
structure Fetches (ledger : Ledger) (sessionKey location : Pubkey) (session : Session)
    (fetched : Fetched) : Prop where
  found : ledger location = some (.session session)
  key : session.sessionKey = sessionKey
  session_eq : fetched.session = session.decoded
  grants : ∀ decoded, decoded ∈ fetched.grants ↔
    ∃ grantAddress grant, ledger grantAddress = some (.grant grant) ∧ grant.session = location ∧
      decoded = grant.decoded

theorem fetches_of_readAccounts (hlists : Lists answer ledger) (hsession : sessionOrder.Perm answer)
    (hgrants : grantOrder.Perm answer) {fetched : Fetched}
    (hread : readAccounts programID sessionKey.1 sessionOrder grantOrder = .ok fetched) :
    ∃ location session, Fetches ledger sessionKey location session fetched := by
  obtain ⟨account, haccount, sessAddr, _, hfound, hmem⟩ := readAccounts_eq_ok hread
  obtain ⟨location, data, hstored, rfl⟩ := (hlists account).mp (hsession.mem_iff.mp haccount)
  obtain ⟨session, rfl, hkey, hdecoded⟩ := sessionAccount_programAccount.mp hfound
  obtain ⟨hsame, rfl, -⟩ : fetched.session = session.decoded ∧ sessAddr = location.1 ∧ _ := by
    simpa only [Prod.mk.injEq] using hdecoded
  refine ⟨location, session, hstored, Subtype.ext hkey, hsame, ?_⟩
  intro decoded
  rw [hmem decoded]
  constructor
  · rintro ⟨holder, hholder, pubkey, hgrant⟩
    obtain ⟨grantAddress, data, hstored', rfl⟩ := (hlists holder).mp (hgrants.mem_iff.mp hholder)
    obtain ⟨grant, rfl, hlocation, hpair⟩ := grantAccount_programAccount.mp hgrant
    exact ⟨grantAddress, grant, hstored', Subtype.ext hlocation, (Prod.mk.inj hpair).1⟩
  · rintro ⟨grantAddress, grant, hstored', rfl, rfl⟩
    refine ⟨programAccount grantAddress (.grant grant), ?_, address grantAddress.1, ?_⟩
    · exact hgrants.mem_iff.mpr ((hlists _).mpr ⟨grantAddress, _, hstored', rfl⟩)
    · exact grantAccount_programAccount.mpr ⟨grant, rfl, rfl, rfl⟩

/-- The snapshot that is served after a refresh is built from what it has fetched. -/
theorem Refreshed.fetches (hrefreshed : Refreshed source ledger now snap)
    (hkey : source.sessionKey = sessionKey.1) :
    ∃ location session fetched, Fetches ledger sessionKey location session fetched ∧
      snap = buildSnapshot fetched.session fetched.grants now := by
  obtain ⟨state, later, index, slot, accounts, sessionOrder, grantOrder, fetched, fresh, rfl, hsampled,
    hlists, hsession, hgrants, hbuilt, hlater, hsnapshot⟩ := hrefreshed
  have hbound : index < state.refreshes.length := (List.getElem?_eq_some_iff.mp hsampled).1
  unfold SourceRun.build at hbuilt
  rw [hsampled] at hbuilt
  dsimp only at hbuilt
  split at hbuilt
  · next fetched' hread =>
    rw [List.getElem?_set_self hbound] at hbuilt
    obtain ⟨-, rfl, -⟩ := Refresh.built.inj (Option.some.inj hbuilt)
    rw [hkey] at hread
    obtain ⟨location, session, hfetches⟩ := fetches_of_readAccounts hlists hsession hgrants hread
    refine ⟨location, session, fetched', hfetches, ?_⟩
    unfold SourceRun.snapshot SourceRun.install at hsnapshot
    rw [hlater] at hsnapshot
    exact (Prod.mk.inj (Except.ok.inj hsnapshot)).1.symm
  · rw [List.getElem?_set_self hbound] at hbuilt
    cases Option.some.inj hbuilt

variable {wallet : PublicKey} {instruction : Instruction}

/-- The snapshot shows the grants in force that have not expired. -/
theorem Fetches.grantCaps_iff {location : Pubkey} {session : Session} {fetched : Fetched}
    (hfetches : Fetches ledger sessionKey location session fetched)
    (hwell : WellFormed derivation ledger) {caps : Caps} :
    (buildSnapshot fetched.session fetched.grants now).grantCaps wallet = some caps ↔
      ∃ expiry : Int64, LiveGrant ledger location wallet caps expiry ∧
        (expiry = 0 ∨ now.unix < expiry.toInt) := by
  have hepoch : sessionEpoch ledger location = some session.epoch :=
    sessionEpoch_eq_some.mpr ⟨session, hfetches.found, rfl⟩
  rw [grantCaps_buildSnapshot_iff]
  · constructor
    · rintro ⟨decoded, hdecoded, ⟨hcurrent, hunexpired⟩, hwallet, hcaps⟩
      obtain ⟨grantAddress, grant, hstored, hlocation, rfl⟩ := (hfetches.grants decoded).mp hdecoded
      rw [hfetches.session_eq] at hcurrent
      have hsame : session.epoch = grant.epoch := UInt16.toNat_inj.mp hcurrent.symm
      refine ⟨grant.expiry, ⟨grantAddress, grant, hstored, ⟨hlocation, hwallet⟩, ?_, hcaps, rfl⟩, ?_⟩
      · rw [hepoch, hsame]
      · exact hunexpired.imp_left Int64.toInt_inj.mp
    · rintro ⟨expiry, ⟨grantAddress, grant, hstored, hheld, hcurrent, hcaps, rfl⟩, hunexpired⟩
      refine ⟨grant.decoded, (hfetches.grants _).mpr ⟨grantAddress, grant, hstored, hheld.1, rfl⟩,
        ⟨?_, hunexpired.imp_left Int64.toInt_inj.mpr⟩, hheld.2, hcaps⟩
      rw [hepoch] at hcurrent
      rw [hfetches.session_eq]
      exact congrArg UInt16.toNat (Option.some.inj hcurrent).symm
  · intro decoded hdecoded other hother hgrantee
    obtain ⟨grantAddress, grant, hstored, hlocation, rfl⟩ := (hfetches.grants decoded).mp hdecoded
    obtain ⟨grantAddress', grant', hstored', hlocation', rfl⟩ := (hfetches.grants other).mp hother
    have hsame := hwell.grant_unique hstored ⟨hlocation, rfl⟩ hstored' ⟨hlocation', hgrantee.symm⟩
    rw [hsame.2]

/-- The owner and the grants of a snapshot are what the history says of the session. -/
structure Shows (derivation : AddressDerivation) (history : List Instruction) (location : Pubkey)
    (now : Time) (snap : Snapshot) : Prop where
  owner : Latest (SetsOwner location snap.owner)
    (fun instruction ↦ ∃ owner, SetsOwner location owner instruction) history
  grants : ∀ wallet caps, snap.grantCaps wallet = some caps ↔
    ∃ expiry : Int64,
      Latest (Grants location wallet caps expiry) (Decides derivation location wallet) history ∧
        (expiry = 0 ∨ now.unix < expiry.toInt)

variable {history history' : List Instruction} {location : Pubkey} {snap' : Snapshot}

theorem shows_of_refreshed (hhistory : HistoryOf derivation history ledger)
    (hrefreshed : Refreshed source ledger now snap) (hkey : source.sessionKey = sessionKey.1) :
    ∃ location bump, derivation.find (sessionSeeds sessionKey) = some (location, bump) ∧
      Shows derivation history location now snap := by
  obtain ⟨location, session, fetched, hfetches, rfl⟩ := hrefreshed.fetches hkey
  have hfind := hhistory.wellFormed.sessions location session hfetches.found
  rw [hfetches.key] at hfind
  refine ⟨location, session.bump, hfind, ?_, ?_⟩
  · have howner : (buildSnapshot fetched.session fetched.grants now).owner = session.owner.1 := by
      rw [hfetches.session_eq]
      rfl
    rw [howner]
    exact hhistory.latest_owner hfetches.found
  · intro wallet caps
    rw [hfetches.grantCaps_iff hhistory.wellFormed]
    apply exists_congr
    intro expiry
    rw [hhistory.liveGrant_iff]

/-- An owner is set, and a grant decided on, by an instruction of the session itself. -/
theorem session_of_setsOwner {owner : PublicKey} (hsets : SetsOwner location owner instruction) :
    instruction.session = location := by
  cases instruction with
  | registerSession | transferOwnership => exact hsets.1
  | grant | revoke | bumpEpoch => exact hsets.elim

theorem session_of_decides (hdecides : Decides derivation location wallet instruction) :
    instruction.session = location := by
  cases instruction with
  | registerSession | transferOwnership => simp [Decides, Grants, Revokes, Bumps] at hdecides
  | grant session grantAddress owner systemProgram grantee caps expiry =>
    simp only [Decides, Grants, Revokes, Bumps, or_false] at hdecides
    obtain ⟨_, _, hsession, _⟩ := hdecides
    exact hsession
  | revoke session grantAddress owner =>
    simp only [Decides, Grants, Revokes, Bumps, exists_false, or_false, false_or] at hdecides
    exact hdecides.1
  | bumpEpoch session owner =>
    simpa [Decides, Grants, Revokes, Bumps, Instruction.session] using hdecides

theorem setsOwner_unique {owner owner' : PublicKey} (hsets : SetsOwner location owner instruction)
    (hsets' : SetsOwner location owner' instruction) : owner = owner' := by
  cases instruction with
  | registerSession | transferOwnership => exact hsets.2.symm.trans hsets'.2
  | grant | revoke | bumpEpoch => exact hsets.elim

/-- A snapshot is determined by the instructions of its own session. -/
theorem Shows.unique (hshows : Shows derivation history location now snap)
    (hshows' : Shows derivation history' location now snap')
    (hsame : history'.filter (·.session = location) = history.filter (·.session = location)) :
    snap' = snap := by
  have howner := hshows.owner
  have howner' := hshows'.owner
  have hown : ∀ (owner : PublicKey) (entry : Instruction), SetsOwner location owner entry →
      decide (entry.session = location) = true :=
    fun owner entry hsets ↦ decide_eq_true (session_of_setsOwner hsets)
  have hany : ∀ entry : Instruction, (∃ owner, SetsOwner location owner entry) →
      decide (entry.session = location) = true := fun entry ⟨owner, hsets⟩ ↦ hown owner entry hsets
  rw [← latest_filter (hown _) hany] at howner howner'
  rw [hsame] at howner'
  obtain ⟨instruction, hsets, hsets'⟩ := howner.exists_both (fun _ hsets ↦ ⟨_, hsets⟩)
    (fun _ hsets ↦ ⟨_, hsets⟩) howner'
  have hgrants : snap'.grantCaps = snap.grantCaps := by
    funext wallet
    ext caps
    rw [hshows.grants, hshows'.grants]
    apply exists_congr
    intro expiry
    have hdecides : ∀ entry : Instruction, Decides derivation location wallet entry →
        decide (entry.session = location) = true :=
      fun entry hdecides ↦ decide_eq_true (session_of_decides hdecides)
    have hgranted : ∀ entry : Instruction, Grants location wallet caps expiry entry →
        decide (entry.session = location) = true :=
      fun entry hgrants ↦ hdecides entry (.inl ⟨caps, expiry, hgrants⟩)
    rw [← latest_filter hgranted hdecides, hsame, latest_filter hgranted hdecides]
  rcases snap with ⟨owner, grantCaps⟩
  rcases snap' with ⟨owner', grantCaps'⟩
  exact congrArg₂ Snapshot.mk (setsOwner_unique hsets' hsets) hgrants

/-- A bump of the epoch ends every grant before it. -/
theorem Shows.none_of_bump (hshows : Shows derivation history location now snap)
    {before after : List Instruction} {owner : Pubkey}
    (hhistory : history = before ++ .bumpEpoch location owner :: after)
    (hafter : ∀ instruction ∈ after, ∀ caps expiry, ¬ Grants location wallet caps expiry instruction) :
    snap.grantCaps wallet = none := by
  rw [Option.eq_none_iff_forall_ne_some]
  intro caps hcaps
  obtain ⟨expiry, hlatest, _⟩ := (hshows.grants wallet caps).mp hcaps
  rw [hhistory] at hlatest
  refine not_latest_of_counts (.inr (.inr rfl)) (fun hgrants ↦ hgrants) ?_ hlatest
  intro instruction hinstruction
  exact hafter instruction hinstruction caps expiry

/-- Whatever instructions have succeeded, and in whatever order the accounts are listed and read: a
snapshot shows the owner that was set last and, for each wallet, the unexpired grant that neither a
revocation nor a bump has ended. It depends on nothing but the instructions of its own session. -/
theorem snapshot_refines_history (hhistory : HistoryOf derivation history ledger)
    (hkey : source.sessionKey = sessionKey.1) (hrefreshed : Refreshed source ledger now snap) :
    ∃ location bump, derivation.find (sessionSeeds sessionKey) = some (location, bump) ∧
      Shows derivation history location now snap ∧
      (∀ before owner after wallet, history = before ++ .bumpEpoch location owner :: after →
        (∀ instruction ∈ after, ∀ caps expiry, ¬ Grants location wallet caps expiry instruction) →
        snap.grantCaps wallet = none) ∧
      ∀ history' ledger' snap', HistoryOf derivation history' ledger' →
        Refreshed source ledger' now snap' →
        history'.filter (·.session = location) = history.filter (·.session = location) →
        snap' = snap := by
  obtain ⟨location, bump, hfind, hshows⟩ := shows_of_refreshed hhistory hrefreshed hkey
  refine ⟨location, bump, hfind, hshows, ?_, ?_⟩
  · intro before owner after wallet hsplit hafter
    exact hshows.none_of_bump hsplit hafter
  · intro history' ledger' snap' hhistory' hrefreshed' hsame
    obtain ⟨location', bump', hfind', hshows'⟩ := shows_of_refreshed hhistory' hrefreshed' hkey
    rw [hfind] at hfind'
    obtain ⟨rfl, -⟩ := Prod.mk.inj (Option.some.inj hfind')
    exact hshows.unique hshows' hsame

end Server

section Example

/-- The accounts after the example transaction. -/
def exampleStored : Ledger :=
  Function.update (Function.update (fun _ ↦ none) (freeKey 11)
      (some (.session ⟨freeKey 2, freeKey 1, 0, 255⟩))) (freeKey 12)
    (some (.grant ⟨freeKey 11, freeKey 4, capWrite, 60, 0, 255⟩))

theorem exampleStored_history :
    HistoryOf exampleDerivation exampleTransaction.instructions exampleStored := by
  have hregistered : HistoryOf exampleDerivation
      [.registerSession (freeKey 11) (freeKey 2) (freeKey 1) systemProgramID]
      (Function.update (fun _ ↦ none) (freeKey 11)
        (some (.session ⟨freeKey 2, freeKey 1, 0, 255⟩))) :=
    .concat exampleTransaction.privileges .nil rfl
  exact .concat exampleTransaction.privileges hregistered rfl

theorem exampleAccounts_lists : Lists exampleAccounts exampleStored := by
  intro account
  constructor
  · intro hmem
    rcases List.mem_pair.mp hmem with rfl | rfl
    · exact ⟨freeKey 11, _, rfl, by decide +kernel⟩
    · exact ⟨freeKey 12, _, rfl, by decide +kernel⟩
  · rintro ⟨location, data, hstored, rfl⟩
    rcases update_eq_cases hstored with ⟨rfl, hgrant⟩ | ⟨_, hrest⟩
    · obtain rfl := Option.some.inj hgrant
      decide +kernel
    · rcases update_eq_cases hrest with ⟨rfl, hsession⟩ | ⟨_, hnone⟩
      · obtain rfl := Option.some.inj hsession
        decide +kernel
      · cases hnone

def exampleSnapshot : Snapshot := buildSnapshot exampleFetched.session exampleFetched.grants 0

theorem exampleStored_refreshed : Refreshed exampleSolana exampleStored 0 exampleSnapshot := by
  let state : SourceRun := ⟨0, [exampleAccounts], [.sampled 0 exampleAccounts], none⟩
  refine ⟨state, { state with refreshes := [.built 0 exampleFetched 0] }, 0, 0, exampleAccounts,
    exampleAccounts, exampleAccounts, exampleFetched, true, rfl, rfl, exampleAccounts_lists, .refl _,
    .refl _, ?_, rfl, rfl⟩
  have hread : readAccounts exampleSolana.programID exampleSolana.sessionKey exampleAccounts
      exampleAccounts = .ok exampleFetched := readAccounts_example
  simp [SourceRun.build, state, hread]

theorem snapshot_refines_history_example :
    exampleSnapshot.grantCaps (freeKey 4).1 = some capWrite ∧
      ∃ location bump, exampleDerivation.find (sessionSeeds (freeKey 2)) = some (location, bump) ∧
        Shows exampleDerivation exampleTransaction.instructions location 0 exampleSnapshot := by
  obtain ⟨location, bump, hfind, hshows, _⟩ :=
    snapshot_refines_history exampleStored_history rfl exampleStored_refreshed
  exact ⟨by decide +kernel, location, bump, hfind, hshows⟩

end Example

end Mosey.MoseySession
