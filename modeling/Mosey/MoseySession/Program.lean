import Mathlib.Algebra.Group.Nat.Defs
import Mathlib.Data.Option.Basic
import Mathlib.Logic.Function.Basic
import Mosey.Ed25519
import Mosey.Library.Machine
import Mosey.Library.Results
import Mosey.Wallet.Caps

/-!
# The on-chain program

The program keeps one account for each session and one for each grant, at addresses derived from
their seeds. The account constraints of an instruction are checked before its body runs, with the
meaning Anchor documents for them. A transaction runs its instructions in order under one set of
signers, and a failure of any of them undoes all.
-/

namespace Mosey.MoseySession

open Library Wallet

/-- A Solana public key, the identity of a wallet and the address of an account. -/
abbrev Pubkey := { key : PublicKey // key.length = publicKeySize }

/-- `create_program_address`: the address derived from the concatenated seeds and the bump, if it lies
off the curve. Two inputs never share an address. -/
structure AddressDerivation where
  create : Bytes → Option Pubkey
  create_injective : ∀ {input input' address},
    create input = some address → create input' = some address → input = input'

/-- `find_program_address`: the first bump from 255 downwards that gives an address. -/
def AddressDerivation.find (derivation : AddressDerivation) (seeds : Bytes) : Option (Pubkey × UInt8) :=
  ((List.range 255).map fun count ↦ UInt8.ofNat (255 - count)).findSome? fun bump ↦
    (derivation.create (seeds ++ [bump])).map fun address ↦ (address, bump)

def sessionSeeds (sessionKey : Pubkey) : Bytes := ascii "session" ++ sessionKey.1

def grantSeeds (session grantee : Pubkey) : Bytes := ascii "grant" ++ session.1 ++ grantee.1

structure Session where
  sessionKey : Pubkey
  owner : Pubkey
  epoch : UInt16
  bump : UInt8
  deriving DecidableEq

structure Grant where
  session : Pubkey
  grantee : Pubkey
  caps : Caps
  expiry : Int64
  epoch : UInt16
  bump : UInt8
  deriving DecidableEq

inductive AccountData
  | session (session : Session)
  | grant (grant : Grant)
  deriving DecidableEq

/-- The accounts that the program owns. -/
abbrev Ledger := Pubkey → Option AccountData

inductive ProgramError
  | accountNotInitialized
  | accountDiscriminatorMismatch
  | accountAlreadyInUse
  | accountNotSigner
  | insufficientFunds
  | invalidProgramId
  | constraintMut
  | constraintHasOne
  | constraintSeeds
  | constraintClose
  | invalidCaps
  | epochOverflow
  deriving DecidableEq

inductive Event
  | sessionRegistered (session sessionKey owner : Pubkey)
  | ownershipTransferred (session previous newOwner : Pubkey)
  | grantMinted (session grantee : Pubkey) (caps : Caps) (expiry : Int64) (epoch : UInt16)
  | grantRevoked (session grantee : Pubkey)
  | epochBumped (session : Pubkey) (epoch : UInt16)
  deriving DecidableEq

/-- An instruction with the addresses of the accounts that are passed to it. -/
inductive Instruction
  | registerSession (session sessionKey owner systemProgram : Pubkey)
  | transferOwnership (session owner newOwner : Pubkey)
  | grant (session grant owner systemProgram grantee : Pubkey) (caps : Caps) (expiry : Int64)
  | revoke (session grant owner : Pubkey)
  | bumpEpoch (session owner : Pubkey)
  deriving DecidableEq

/-- What a transaction grants to its instructions: who signed it, which accounts it may write and for
which new accounts the payer can pay the rent. -/
structure Privileges where
  signers : List Pubkey
  writable : List Pubkey
  funded : List Pubkey

structure Transaction where
  privileges : Privileges
  instructions : List Instruction

def systemProgramID : Pubkey := ⟨List.replicate publicKeySize 0, List.length_replicate⟩

def require (condition : Prop) [Decidable condition] (error : ProgramError) : Except ProgramError Unit :=
  if condition then .ok () else .error error

section Execution

variable (derivation : AddressDerivation) (privileges : Privileges) (ledger : Ledger)

/-- `Account<'info, Session>`. -/
def loadSession (address : Pubkey) : Except ProgramError Session :=
  match ledger address with
  | some (.session session) => .ok session
  | some (.grant _) => .error .accountDiscriminatorMismatch
  | none => .error .accountNotInitialized

/-- `Account<'info, Grant>`. -/
def loadGrant (address : Pubkey) : Except ProgramError Grant :=
  match ledger address with
  | some (.grant grant) => .ok grant
  | some (.session _) => .error .accountDiscriminatorMismatch
  | none => .error .accountNotInitialized

/-- `seeds` with `bump`: the canonical bump of these seeds, if the account is at their address. -/
def canonicalBump (seeds : Bytes) (address : Pubkey) : Except ProgramError UInt8 :=
  match derivation.find seeds with
  | some (found, bump) => if found = address then .ok bump else .error .constraintSeeds
  | none => .error .constraintSeeds

/-- `init`: a new account at this address. -/
def initAccount (address : Pubkey) : Except ProgramError Unit := do
  require (ledger address = none) .accountAlreadyInUse
  require (address ∈ privileges.funded) .insufficientFunds

/-- `init_if_needed` for a grant: a new account, or one that already holds a grant. -/
def initAccountIfNeeded (address : Pubkey) : Except ProgramError Unit :=
  match ledger address with
  | none => require (address ∈ privileges.funded) .insufficientFunds
  | some (.grant _) => .ok ()
  | some (.session _) => .error .accountDiscriminatorMismatch

/-- What `OwnerOnly`, `CreateGrant` and `Revoke` check of `session` and `owner`. -/
def ownedSession (address owner : Pubkey) : Except ProgramError Session := do
  let session ← loadSession ledger address
  require (owner ∈ privileges.signers) .accountNotSigner
  require (derivation.create (sessionSeeds session.sessionKey ++ [session.bump]) = some address)
    .constraintSeeds
  require (session.owner = owner) .constraintHasOne
  return session

def registerSession (address sessionKey owner systemProgram : Pubkey) :
    Except ProgramError (Ledger × Event) := do
  require (sessionKey ∈ privileges.signers) .accountNotSigner
  require (owner ∈ privileges.signers) .accountNotSigner
  require (systemProgram = systemProgramID) .invalidProgramId
  let bump ← canonicalBump derivation (sessionSeeds sessionKey) address
  initAccount privileges ledger address
  require (address ∈ privileges.writable) .constraintMut
  require (owner ∈ privileges.writable) .constraintMut
  let session : Session := ⟨sessionKey, owner, 0, bump⟩
  return (Function.update ledger address (some (.session session)),
    .sessionRegistered address sessionKey owner)

def transferOwnership (address owner newOwner : Pubkey) : Except ProgramError (Ledger × Event) := do
  let session ← ownedSession derivation privileges ledger address owner
  require (address ∈ privileges.writable) .constraintMut
  return (Function.update ledger address (some (.session { session with owner := newOwner })),
    .ownershipTransferred address session.owner newOwner)

def grant (address grantAddress owner systemProgram grantee : Pubkey) (caps : Caps) (expiry : Int64) :
    Except ProgramError (Ledger × Event) := do
  let session ← ownedSession derivation privileges ledger address owner
  require (systemProgram = systemProgramID) .invalidProgramId
  let bump ← canonicalBump derivation (grantSeeds address grantee) grantAddress
  initAccountIfNeeded privileges ledger grantAddress
  require (grantAddress ∈ privileges.writable) .constraintMut
  require (owner ∈ privileges.writable) .constraintMut
  require (caps &&& ~~~allCaps = 0) .invalidCaps
  return (Function.update ledger grantAddress
      (some (.grant ⟨address, grantee, caps, expiry, session.epoch, bump⟩)),
    .grantMinted address grantee caps expiry session.epoch)

def revoke (address grantAddress owner : Pubkey) : Except ProgramError (Ledger × Event) := do
  let _ ← ownedSession derivation privileges ledger address owner
  let grant ← loadGrant ledger grantAddress
  require (derivation.create (grantSeeds address grant.grantee ++ [grant.bump]) = some grantAddress)
    .constraintSeeds
  require (grantAddress ∈ privileges.writable) .constraintMut
  require (owner ∈ privileges.writable) .constraintMut
  require (grantAddress ≠ owner) .constraintClose
  return (Function.update ledger grantAddress none, .grantRevoked address grant.grantee)

def bumpEpoch (address owner : Pubkey) : Except ProgramError (Ledger × Event) := do
  let session ← ownedSession derivation privileges ledger address owner
  require (address ∈ privileges.writable) .constraintMut
  -- `checked_add` on `u16`
  require (session.epoch.toNat + 1 < 2 ^ 16) .epochOverflow
  return (Function.update ledger address
      (some (.session { session with epoch := session.epoch + 1 })),
    .epochBumped address (session.epoch + 1))

def execute : Instruction → Except ProgramError (Ledger × Event)
  | .registerSession session sessionKey owner systemProgram =>
    registerSession derivation privileges ledger session sessionKey owner systemProgram
  | .transferOwnership session owner newOwner =>
    transferOwnership derivation privileges ledger session owner newOwner
  | .grant session grantAddress owner systemProgram grantee caps expiry =>
    grant derivation privileges ledger session grantAddress owner systemProgram grantee caps expiry
  | .revoke session grantAddress owner => revoke derivation privileges ledger session grantAddress owner
  | .bumpEpoch session owner => bumpEpoch derivation privileges ledger session owner

end Execution

section Transactions

variable (derivation : AddressDerivation)

/-- One instruction after another, with the events they emit. -/
def executeAll (privileges : Privileges) :
    Ledger → List Instruction → Except ProgramError (Ledger × List Event)
  | ledger, [] => .ok (ledger, [])
  | ledger, instruction :: rest => do
    let (ledger', event) ← execute derivation privileges ledger instruction
    let (after, events) ← executeAll privileges ledger' rest
    return (after, event :: events)

def Transaction.run (transaction : Transaction) (ledger : Ledger) :
    Except ProgramError (Ledger × List Event) :=
  executeAll derivation transaction.privileges ledger transaction.instructions

def process (ledger : Ledger) (transaction : Transaction) : Ledger :=
  match transaction.run derivation ledger with
  | .ok (ledger', _) => ledger'
  | .error _ => ledger

/-- The program under any sequence of transactions. -/
def machine : Machine Ledger Transaction where
  init _ := none
  allowed _ _ := True
  step := process derivation

end Transactions

/-! ## What a successful instruction does -/

theorem require_eq_ok {condition : Prop} [Decidable condition] {error : ProgramError} {done : Unit} :
    require condition error = .ok done ↔ condition := by
  unfold require
  split <;> simp_all

section Effects

variable {derivation : AddressDerivation} {privileges : Privileges} {ledger : Ledger}

theorem loadSession_eq_ok {address : Pubkey} {session : Session} :
    loadSession ledger address = .ok session ↔ ledger address = some (.session session) := by
  unfold loadSession
  split <;> simp_all

theorem loadGrant_eq_ok {address : Pubkey} {grant : Grant} :
    loadGrant ledger address = .ok grant ↔ ledger address = some (.grant grant) := by
  unfold loadGrant
  split <;> simp_all

/-- An address passes the check if it is the one that the seeds derive. -/
theorem canonicalBump_eq_ok {seeds : Bytes} {address : Pubkey} {bump : UInt8} :
    canonicalBump derivation seeds address = .ok bump ↔ derivation.find seeds = some (address, bump) := by
  unfold canonicalBump
  split
  · next found bump' hfind =>
    split
    · next heq => simp [hfind, heq]
    · next hne => simp [hfind, hne]
  · next hfind => simp [hfind]

/-- The session is there, at its own address, and its owner has signed. -/
structure OwnerSigned (derivation : AddressDerivation) (privileges : Privileges) (ledger : Ledger)
    (address owner : Pubkey) (session : Session) : Prop where
  found : ledger address = some (.session session)
  signed : owner ∈ privileges.signers
  seeds : derivation.create (sessionSeeds session.sessionKey ++ [session.bump]) = some address
  owner_eq : session.owner = owner

/-- A session is handed to its owner alone, and only with the owner's signature. -/
theorem ownedSession_eq_ok {address owner : Pubkey} {session : Session} :
    ownedSession derivation privileges ledger address owner = .ok session ↔
      OwnerSigned derivation privileges ledger address owner session := by
  simp only [ownedSession, bind_eq_ok, loadSession_eq_ok, require_eq_ok]
  constructor
  · rintro ⟨found, hfound, _, hsigned, _, hseeds, _, howner, hsame⟩
    obtain rfl : found = session := Except.ok.inj hsame
    exact ⟨hfound, hsigned, hseeds, howner⟩
  · intro howned
    exact ⟨session, howned.found, (), howned.signed, (), howned.seeds, (), howned.owner_eq, rfl⟩

/-- What a successful instruction has checked, and what it has done to the accounts. -/
inductive Effect (derivation : AddressDerivation) (privileges : Privileges) (ledger : Ledger) :
    Instruction → Ledger → Prop
  | registerSession {address sessionKey owner systemProgram : Pubkey} {bump : UInt8} :
      sessionKey ∈ privileges.signers → owner ∈ privileges.signers →
      derivation.find (sessionSeeds sessionKey) = some (address, bump) → ledger address = none →
      Effect derivation privileges ledger (.registerSession address sessionKey owner systemProgram)
        (Function.update ledger address (some (.session ⟨sessionKey, owner, 0, bump⟩)))
  | transferOwnership {address owner newOwner : Pubkey} {session : Session} :
      OwnerSigned derivation privileges ledger address owner session →
      Effect derivation privileges ledger (.transferOwnership address owner newOwner)
        (Function.update ledger address (some (.session { session with owner := newOwner })))
  | grant {address grantAddress owner systemProgram grantee : Pubkey} {caps : Caps} {expiry : Int64}
      {session : Session} {bump : UInt8} :
      OwnerSigned derivation privileges ledger address owner session →
      derivation.find (grantSeeds address grantee) = some (grantAddress, bump) →
      (∀ other, ledger grantAddress ≠ some (.session other)) → caps.subset allCaps = true →
      Effect derivation privileges ledger
        (.grant address grantAddress owner systemProgram grantee caps expiry)
        (Function.update ledger grantAddress
          (some (.grant ⟨address, grantee, caps, expiry, session.epoch, bump⟩)))
  | revoke {address grantAddress owner : Pubkey} {session : Session} {grant : Grant} :
      OwnerSigned derivation privileges ledger address owner session →
      ledger grantAddress = some (.grant grant) →
      derivation.create (grantSeeds address grant.grantee ++ [grant.bump]) = some grantAddress →
      Effect derivation privileges ledger (.revoke address grantAddress owner)
        (Function.update ledger grantAddress none)
  | bumpEpoch {address owner : Pubkey} {session : Session} :
      OwnerSigned derivation privileges ledger address owner session →
      session.epoch.toNat + 1 < 2 ^ 16 →
      Effect derivation privileges ledger (.bumpEpoch address owner)
        (Function.update ledger address (some (.session { session with epoch := session.epoch + 1 })))

/-- A session account is never taken for a grant that is yet to be made. -/
theorem initAccountIfNeeded_eq_ok {address : Pubkey} {done : Unit}
    (hinit : initAccountIfNeeded privileges ledger address = .ok done) (other : Session) :
    ledger address ≠ some (.session other) := by
  unfold initAccountIfNeeded at hinit
  split at hinit
  · next hnone => simp [hnone]
  · next hgrant => simp [hgrant]
  · cases hinit

/-- What each instruction has done when it succeeds. -/
theorem effect_of_execute {instruction : Instruction} {after : Ledger} {event : Event}
    (hexecute : execute derivation privileges ledger instruction = .ok (after, event)) :
    Effect derivation privileges ledger instruction after := by
  cases instruction with
  | registerSession address sessionKey owner systemProgram =>
    simp only [execute, registerSession, initAccount, bind_eq_ok, require_eq_ok,
      canonicalBump_eq_ok] at hexecute
    obtain ⟨_, hkey, _, howner, _, _, bump, hbump, _, ⟨_, hnone, _⟩, _, _, _, _, hafter⟩ := hexecute
    obtain rfl := (Prod.mk.inj (Except.ok.inj hafter)).1
    exact .registerSession hkey howner hbump hnone
  | transferOwnership address owner newOwner =>
    simp only [execute, transferOwnership, bind_eq_ok, require_eq_ok, ownedSession_eq_ok] at hexecute
    obtain ⟨session, howned, _, _, hafter⟩ := hexecute
    obtain rfl := (Prod.mk.inj (Except.ok.inj hafter)).1
    exact .transferOwnership howned
  | grant address grantAddress owner systemProgram grantee caps expiry =>
    simp only [execute, grant, bind_eq_ok, require_eq_ok, ownedSession_eq_ok,
      canonicalBump_eq_ok] at hexecute
    obtain ⟨session, howned, _, _, bump, hbump, _, hinit, _, _, _, _, _, hcaps, hafter⟩ := hexecute
    obtain rfl := (Prod.mk.inj (Except.ok.inj hafter)).1
    exact .grant howned hbump (initAccountIfNeeded_eq_ok hinit) (decide_eq_true hcaps)
  | revoke address grantAddress owner =>
    simp only [execute, revoke, bind_eq_ok, require_eq_ok, ownedSession_eq_ok,
      loadGrant_eq_ok] at hexecute
    obtain ⟨session, howned, grant, hgrant, _, hseeds, _, _, _, _, _, _, hafter⟩ := hexecute
    obtain rfl := (Prod.mk.inj (Except.ok.inj hafter)).1
    exact .revoke howned hgrant hseeds
  | bumpEpoch address owner =>
    simp only [execute, bumpEpoch, bind_eq_ok, require_eq_ok, ownedSession_eq_ok] at hexecute
    obtain ⟨session, howned, _, _, _, hlimit, hafter⟩ := hexecute
    obtain rfl := (Prod.mk.inj (Except.ok.inj hafter)).1
    exact .bumpEpoch howned hlimit

end Effects

section Addresses

variable {derivation : AddressDerivation}

theorem AddressDerivation.create_of_find {seeds : Bytes} {address : Pubkey} {bump : UInt8}
    (hfind : derivation.find seeds = some (address, bump)) :
    derivation.create (seeds ++ [bump]) = some address := by
  unfold AddressDerivation.find at hfind
  obtain ⟨tried, _, htried⟩ := List.exists_of_findSome?_eq_some hfind
  obtain ⟨found, hcreate, hpair⟩ := Option.map_eq_some_iff.mp htried
  obtain ⟨rfl, rfl⟩ := Prod.mk.inj hpair
  exact hcreate

/-- An address determines the seeds and the bump it was created from. -/
theorem AddressDerivation.create_seeds_injective {seeds seeds' : Bytes} {bump bump' : UInt8}
    {address : Pubkey} (hcreate : derivation.create (seeds ++ [bump]) = some address)
    (hcreate' : derivation.create (seeds' ++ [bump']) = some address) :
    seeds = seeds' ∧ bump = bump' := by
  have hinputs := derivation.create_injective hcreate hcreate'
  have hparts := List.append_inj' hinputs rfl
  exact ⟨hparts.1, by simpa using hparts.2⟩

/-- The seeds of a grant determine the session and the grantee. -/
theorem grantSeeds_injective {session session' grantee grantee' : Pubkey}
    (hseeds : grantSeeds session grantee = grantSeeds session' grantee') :
    session = session' ∧ grantee = grantee' := by
  have hlength : (ascii "grant" ++ session.1).length = (ascii "grant" ++ session'.1).length := by
    rw [List.length_append, List.length_append, session.2, session'.2]
  have hparts := List.append_inj hseeds hlength
  exact ⟨Subtype.ext (List.append_cancel_left hparts.1), Subtype.ext hparts.2⟩

/-- Addresses given by a table without a repeated address. -/
def AddressDerivation.ofTable (table : List (Bytes × Pubkey))
    (hunique : ∀ entry ∈ table, ∀ other ∈ table, entry.2 = other.2 → entry.1 = other.1) :
    AddressDerivation where
  create input := (table.find? (·.1 = input)).map Prod.snd
  create_injective := by
    intro input input' address hcreate hcreate'
    obtain ⟨entry, hentry, rfl⟩ := Option.map_eq_some_iff.mp hcreate
    obtain ⟨other, hother, hsame⟩ := Option.map_eq_some_iff.mp hcreate'
    have hinput : entry.1 = input := by simpa using List.find?_some hentry
    have hinput' : other.1 = input' := by simpa using List.find?_some hother
    rw [← hinput, ← hinput']
    exact hunique entry (List.mem_of_find?_eq_some hentry) other (List.mem_of_find?_eq_some hother)
      hsame.symm

end Addresses

section Example

/-- The session of key 2 lies at address 11, and its grant to key 4 at address 12. -/
def exampleDerivation : AddressDerivation :=
  .ofTable [(sessionSeeds (freeKey 2) ++ [255], freeKey 11),
    (grantSeeds (freeKey 11) (freeKey 4) ++ [255], freeKey 12)] (by decide)

/-- The owner, key 1, registers the session together with its key and grants `write` to key 4 until
sixty seconds. -/
def exampleTransaction : Transaction :=
  ⟨⟨[freeKey 1, freeKey 2], [freeKey 1, freeKey 11, freeKey 12], [freeKey 11, freeKey 12]⟩,
    [.registerSession (freeKey 11) (freeKey 2) (freeKey 1) systemProgramID,
      .grant (freeKey 11) (freeKey 12) (freeKey 1) systemProgramID (freeKey 4) capWrite 60]⟩

def exampleLedger : Ledger := process exampleDerivation (fun _ ↦ none) exampleTransaction

theorem exampleLedger_reachable : (machine exampleDerivation).Reachable exampleLedger := by
  have hstep : (machine exampleDerivation).Reachable ((machine exampleDerivation).step
      (machine exampleDerivation).init exampleTransaction) := Machine.Reachable.init.step trivial
  exact hstep

end Example

end Mosey.MoseySession
