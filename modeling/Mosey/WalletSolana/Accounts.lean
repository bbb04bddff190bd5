import Mathlib.Data.List.Induction
import Mathlib.Data.List.Perm.Basic
import Mosey.Wallet.Fold

/-!
# On-chain accounts and the snapshots built from them

`Refresh` decodes the accounts of the program, finds the session and its grants, and builds a
snapshot in which grants of an old epoch or past their expiry do not appear. The loops of `Refresh`
range over a map, so each of them sees the accounts in an order of its own.
-/

namespace Mosey.WalletSolana

open Wallet

def sessionDisc : Bytes := [243, 81, 72, 115, 214, 188, 72, 144]

def grantDisc : Bytes := [161, 166, 11, 205, 204, 135, 205, 54]

def sessionLen : ℕ := 8 + 32 + 32 + 2 + 1

def grantLen : ℕ := 8 + 32 + 32 + 1 + 8 + 2 + 1

structure Session where
  sessionKey : PublicKey
  owner : PublicKey
  epoch : ℕ
  deriving DecidableEq

structure Grant where
  session : PublicKey
  grantee : PublicKey
  caps : Caps
  expiry : ℤ
  epoch : ℕ
  deriving DecidableEq

def errWrongDiscriminator : String := "walletsolana: account discriminator mismatch"

def slice (data : Bytes) (offset length : ℕ) : Bytes := (data.drop offset).take length

def littleEndian (bytes : Bytes) : ℕ := Nat.ofDigits 256 (bytes.map UInt8.toNat)

/-- `int64(binary.LittleEndian.Uint64(bytes))`. -/
def littleEndianInt64 (bytes : Bytes) : ℤ := (BitVec.ofNat 64 (littleEndian bytes)).toInt

def tooShort (kind : String) (data : Bytes) (want : ℕ) : String :=
  "walletsolana: " ++ kind ++ " account is " ++ toString data.length ++ " bytes, want >= " ++
    toString want

def decodeSession (data : Bytes) : Except String Session :=
  if data.length < sessionLen then .error (tooShort "session" data sessionLen)
  else if data.take 8 ≠ sessionDisc then .error errWrongDiscriminator
  else .ok
    { sessionKey := slice data 8 32
      owner := slice data 40 32
      epoch := littleEndian (slice data 72 2) }

def decodeGrant (data : Bytes) : Except String Grant :=
  if data.length < grantLen then .error (tooShort "grant" data grantLen)
  else if data.take 8 ≠ grantDisc then .error errWrongDiscriminator
  else .ok
    { session := slice data 8 32
      grantee := slice data 40 32
      caps := (data.getD 72 0).toBitVec
      expiry := littleEndianInt64 (slice data 73 8)
      epoch := littleEndian (slice data 81 2) }

/-- An entry of the decoded answer of `getProgramAccounts`. -/
structure Account where
  pubkey : String
  data : Bytes
  deriving DecidableEq

/-- The account of the session with this key, and its address. -/
def sessionAccount (sessionKey : PublicKey) (account : Account) :
    Option (Session × PublicKey × String) :=
  if account.data.length < 8 ∨ account.data.take 8 ≠ sessionDisc then none
  else
    match decodeSession account.data with
    | .error _ => none
    | .ok session =>
      if session.sessionKey ≠ sessionKey then none
      else
        match parseAddress account.pubkey.toList with
        | .error _ => none
        | .ok sessAddr => some (session, sessAddr, account.pubkey)

/-- The account of a grant of the session at this address. -/
def grantAccount (sessAddr : PublicKey) (account : Account) : Option (Grant × String) :=
  if account.data.length < 8 ∨ account.data.take 8 ≠ grantDisc then none
  else
    match decodeGrant account.data with
    | .error _ => none
    | .ok grant => if grant.session ≠ sessAddr then none else some (grant, account.pubkey)

/-- What `Refresh` has found before it builds the snapshot. -/
structure Fetched where
  session : Session
  grants : List Grant
  targets : List String
  deriving DecidableEq

/-- `Refresh` between the RPC and `buildSnapshot`, with the orders its two loops see. -/
def readAccounts (programID : String) (sessionKey : PublicKey)
    (sessionOrder grantOrder : List Account) : Except String Fetched :=
  match sessionOrder.findSome? (sessionAccount sessionKey) with
  | none => .error ("walletsolana: session " ++ address sessionKey ++
      " not registered under program " ++ programID)
  | some (session, sessAddr, sessAddrStr) =>
    let found := grantOrder.filterMap (grantAccount sessAddr)
    .ok ⟨session, found.map Prod.fst, sessAddrStr :: found.map Prod.snd⟩

/-- The loop body of `buildSnapshot`. -/
def addGrant (epoch : ℕ) (now : Time) (grants : PublicKey → Option Caps) (grant : Grant) :
    PublicKey → Option Caps :=
  if grant.epoch ≠ epoch then grants
  else if grant.expiry ≠ 0 ∧ grant.expiry ≤ now.unix then grants
  else fun wallet ↦ if wallet = grant.grantee then some grant.caps else grants wallet

def buildSnapshot (session : Session) (grants : List Grant) (now : Time) : Snapshot where
  owner := session.owner
  grantCaps := grants.foldl (addGrant session.epoch now) fun _ ↦ none

/-- The grant counts in a session of this epoch at this time. -/
def Grant.Live (grant : Grant) (epoch : ℕ) (now : Time) : Prop :=
  grant.epoch = epoch ∧ (grant.expiry = 0 ∨ now.unix < grant.expiry)

variable {grants : PublicKey → Option Caps} {now : Time} {grant : Grant} {epoch : ℕ}
  {wallet : PublicKey} {caps : Caps}

/-- A live grant is the one that counts for its grantee. -/
theorem addGrant_of_live (hlive : grant.Live epoch now) :
    addGrant epoch now grants grant grant.grantee = some grant.caps := by
  have hexpired : ¬ (grant.expiry ≠ 0 ∧ grant.expiry ≤ now.unix) := by
    intro hexpired
    exact hlive.2.elim hexpired.1 (Int.not_lt.mpr hexpired.2)
  unfold addGrant
  rw [if_neg (not_not.mpr hlive.1), if_neg hexpired]
  exact if_pos rfl

theorem addGrant_of_not (hnot : ¬ (grant.Live epoch now ∧ grant.grantee = wallet)) :
    addGrant epoch now grants grant wallet = grants wallet := by
  unfold addGrant
  split_ifs with hepoch hexpired
  · rfl
  · rfl
  · apply if_neg
    rintro rfl
    refine hnot ⟨⟨not_not.mp hepoch, ?_⟩, rfl⟩
    by_cases hzero : grant.expiry = 0
    · exact .inl hzero
    · exact .inr (Int.not_le.mp fun hle ↦ hexpired ⟨hzero, hle⟩)

theorem addGrant_eq_some (hadd : addGrant epoch now grants grant wallet = some caps) :
    grants wallet = some caps ∨
      grant.Live epoch now ∧ grant.grantee = wallet ∧ grant.caps = caps := by
  by_cases hsets : grant.Live epoch now ∧ grant.grantee = wallet
  · obtain ⟨hlive, rfl⟩ := hsets
    rw [addGrant_of_live hlive] at hadd
    exact .inr ⟨hlive, rfl, Option.some.inj hadd⟩
  · rw [addGrant_of_not hsets] at hadd
    exact .inl hadd

/-- The capabilities of a wallet come from one of its live grants. -/
theorem foldl_addGrant_eq_some {grants : List Grant} {before : PublicKey → Option Caps}
    (hfold : grants.foldl (addGrant epoch now) before wallet = some caps) :
    before wallet = some caps ∨ ∃ grant ∈ grants, grant.Live epoch now ∧ grant.grantee = wallet ∧
      grant.caps = caps := by
  induction grants generalizing before with
  | nil => exact .inl hfold
  | cons grant rest ih =>
    rcases ih hfold with hadd | ⟨later, hmem, hlater⟩
    · rcases addGrant_eq_some hadd with hbefore | hgrant
      · exact .inl hbefore
      · exact .inr ⟨grant, List.mem_cons_self, hgrant⟩
    · exact .inr ⟨later, List.mem_cons_of_mem _ hmem, hlater⟩

/-- A grant that a snapshot shows was live when the snapshot was built. -/
theorem grantCaps_buildSnapshot {session : Session} {grants : List Grant}
    (hcaps : (buildSnapshot session grants now).grantCaps wallet = some caps) :
    ∃ grant ∈ grants, grant.Live session.epoch now ∧ grant.grantee = wallet ∧ grant.caps = caps :=
  (foldl_addGrant_eq_some hcaps).resolve_left (by simp)

/-- A snapshot shows exactly the live grants, if each wallet has at most one. -/
theorem grantCaps_buildSnapshot_iff {session : Session} {grants : List Grant}
    (hunique : ∀ grant ∈ grants, ∀ other ∈ grants, grant.grantee = other.grantee →
      grant.caps = other.caps) :
    (buildSnapshot session grants now).grantCaps wallet = some caps ↔
      ∃ grant ∈ grants, grant.Live session.epoch now ∧ grant.grantee = wallet ∧
        grant.caps = caps := by
  refine ⟨grantCaps_buildSnapshot, ?_⟩
  rintro ⟨grant, hmem, hlive, rfl, rfl⟩
  change grants.foldl (addGrant session.epoch now) (fun _ ↦ none) grant.grantee = some grant.caps
  -- from the last grant of the loop backwards, up to the first one that sets the wallet
  induction grants using List.reverseRecOn with
  | nil => cases hmem
  | append_singleton grants last ih =>
    rw [List.foldl_concat]
    by_cases hlast : last.Live session.epoch now ∧ last.grantee = grant.grantee
    · rw [← hlast.2, addGrant_of_live hlast.1, hunique last (by simp) grant hmem hlast.2]
    · have hearlier : grant ∈ grants := by
        rcases List.mem_append.mp hmem with hearlier | hsame
        · exact hearlier
        · rw [List.mem_singleton.mp hsame] at hlive hlast
          exact absurd ⟨hlive, rfl⟩ hlast
      rw [addGrant_of_not hlast]
      apply ih _ hearlier
      intro first hfirst second hsecond
      exact hunique first (List.mem_append_left _ hfirst) second (List.mem_append_left _ hsecond)

/-- The accounts hold the session, registered to this owner. -/
def OwnedIn (sessionKey : PublicKey) (accounts : List Account) (owner : PublicKey) : Prop :=
  ∃ account ∈ accounts, ∃ session sessAddr sessAddrStr,
    sessionAccount sessionKey account = some (session, sessAddr, sessAddrStr) ∧ session.owner = owner

/-- The accounts hold the session and this grant of its current epoch. -/
def GrantedIn (sessionKey : PublicKey) (accounts : List Account) (grant : Grant) : Prop :=
  ∃ account ∈ accounts, ∃ session sessAddr sessAddrStr,
    sessionAccount sessionKey account = some (session, sessAddr, sessAddrStr) ∧
    grant.epoch = session.epoch ∧
    ∃ holder ∈ accounts, ∃ pubkey, grantAccount sessAddr holder = some (grant, pubkey)

variable {programID : String} {sessionKey : PublicKey} {accounts : List Account}
variable {sessionOrder grantOrder : List Account} {fetched : Fetched}

/-- The session is one of the accounts, and the grants are those of its address. -/
theorem readAccounts_eq_ok
    (hread : readAccounts programID sessionKey sessionOrder grantOrder = .ok fetched) :
    ∃ account ∈ sessionOrder, ∃ sessAddr sessAddrStr,
      sessionAccount sessionKey account = some (fetched.session, sessAddr, sessAddrStr) ∧
      ∀ grant, grant ∈ fetched.grants ↔ ∃ holder ∈ grantOrder, ∃ pubkey,
        grantAccount sessAddr holder = some (grant, pubkey) := by
  unfold readAccounts at hread
  split at hread
  · cases hread
  · next session sessAddr sessAddrStr hfind =>
    obtain rfl := Except.ok.inj hread
    obtain ⟨account, hmem, haccount⟩ := List.exists_of_findSome?_eq_some hfind
    refine ⟨account, hmem, sessAddr, sessAddrStr, haccount, ?_⟩
    intro grant
    constructor
    · intro hgrant
      obtain ⟨⟨found, pubkey⟩, hfound, rfl⟩ := List.mem_map.mp hgrant
      obtain ⟨holder, hholder, hdecoded⟩ := List.mem_filterMap.mp hfound
      exact ⟨holder, hholder, pubkey, hdecoded⟩
    · rintro ⟨holder, hholder, pubkey, hdecoded⟩
      exact List.mem_map_of_mem (List.mem_filterMap.mpr ⟨holder, hholder, hdecoded⟩)

theorem ownedIn_of_readAccounts (hsession : sessionOrder.Perm accounts)
    (hread : readAccounts programID sessionKey sessionOrder grantOrder = .ok fetched) :
    OwnedIn sessionKey accounts fetched.session.owner := by
  obtain ⟨account, hmem, sessAddr, sessAddrStr, haccount, _⟩ := readAccounts_eq_ok hread
  exact ⟨account, hsession.mem_iff.mp hmem, fetched.session, sessAddr, sessAddrStr, haccount, rfl⟩

theorem grantedIn_of_readAccounts (hsession : sessionOrder.Perm accounts)
    (hgrants : grantOrder.Perm accounts)
    (hread : readAccounts programID sessionKey sessionOrder grantOrder = .ok fetched)
    (hmem : grant ∈ fetched.grants) (hepoch : grant.epoch = fetched.session.epoch) :
    GrantedIn sessionKey accounts grant := by
  obtain ⟨account, haccount, sessAddr, sessAddrStr, hsessionAccount, hholders⟩ :=
    readAccounts_eq_ok hread
  obtain ⟨holder, hholder, pubkey, hdecoded⟩ := (hholders grant).mp hmem
  exact ⟨account, hsession.mem_iff.mp haccount, fetched.session, sessAddr, sessAddrStr,
    hsessionAccount, hepoch, holder, hgrants.mem_iff.mp hholder, pubkey, hdecoded⟩

section Example

def exampleAddress : PublicKey := List.replicate 32 11

/-- The example session, owned by key 1, in its epoch 0. -/
def exampleSessionAccount : Account :=
  ⟨address exampleAddress, sessionDisc ++ (freeKey 2).1 ++ (freeKey 1).1 ++ [0, 0] ++ [255]⟩

/-- The grant of `write` to key 4 that expires at sixty seconds. -/
def exampleGrantAccount : Account :=
  ⟨address (List.replicate 32 12), grantDisc ++ exampleAddress ++ (freeKey 4).1 ++ [1] ++
    [60, 0, 0, 0, 0, 0, 0, 0] ++ [0, 0] ++ [255]⟩

def exampleAccounts : List Account := [exampleSessionAccount, exampleGrantAccount]

def exampleGrant : Grant := ⟨exampleAddress, (freeKey 4).1, capWrite, 60, 0⟩

def exampleFetched : Fetched :=
  ⟨⟨(freeKey 2).1, (freeKey 1).1, 0⟩, [exampleGrant],
    [address exampleAddress, address (List.replicate 32 12)]⟩

theorem readAccounts_example : readAccounts "mosey" (freeKey 2).1 exampleAccounts
    exampleAccounts = .ok exampleFetched := by
  decide +kernel

end Example

end Mosey.WalletSolana
