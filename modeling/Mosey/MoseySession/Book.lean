import Mosey.MoseySession.Entry
import Mosey.MoseySession.Snapshot

/-!
# Sessions as books

What the owners of sessions bring about is said without accounts and addresses. A session has a book
with its owner, the standing of every wallet that was granted something and the number of bumps. The
accounts of the program show these books, and whoever submits whatever, the transactions that the cluster
takes change the accounts as the requests change the books. Whether the cluster takes a transaction and
whether its payer can pay for a new account is up to the environment.
-/

namespace Mosey.MoseySession

open Library Wallet WalletSolana

/-- A grant as it was given, or one that a bump of the epoch has ended. -/
inductive Standing
  | current (caps : Caps) (expiry : Int64)
  | ended
  deriving DecidableEq

structure Book where
  owner : Pubkey
  grants : Pubkey → Option Standing
  bumps : ℕ

/-- The books of the sessions, by their keys. -/
abbrev Books := Pubkey → Option Book

/-- What the owner of a book can do with it, if it can be done. -/
def Book.operate (book : Book) : Operation → Option Book
  | .transferOwnership newOwner => some { book with owner := newOwner }
  | .grant grantee caps expiry =>
    if caps.subset allCaps = true then
      some { book with grants := Function.update book.grants grantee (some (.current caps expiry)) }
    else none
  | .revoke grantee =>
    if (book.grants grantee).isSome then
      some { book with grants := Function.update book.grants grantee none }
    else none
  | .bumpEpoch =>
    if book.bumps + 1 < 2 ^ 16 then
      some { book with
        grants := fun grantee ↦ (book.grants grantee).map fun _ ↦ .ended
        bumps := book.bumps + 1 }
    else none

/-- A session is registered once, and only its owner does anything with it. -/
def Books.perform (books : Books) : Request → Option Books
  | .register owner sessionKey =>
    match books sessionKey with
    | some _ => none
    | none => some (Function.update books sessionKey (some ⟨owner, fun _ ↦ none, 0⟩))
  | .operate owner sessionKey operation =>
    match books sessionKey with
    | some book =>
      if book.owner = owner then
        (book.operate operation).map fun after ↦ Function.update books sessionKey (some after)
      else none
    | none => none

/-- The request needs an account that is not there. -/
def Books.opens (books : Books) : Request → Bool
  | .register _ _ => true
  | .operate _ sessionKey (.grant grantee _ _) => ((books sessionKey).bind (·.grants grantee)).isNone
  | .operate _ _ _ => false

/-- A request that cannot be met, or whose new account cannot be paid for, changes nothing. -/
def Books.step (books : Books) (request : Request) (paid : Bool) : Books :=
  if books.opens request = true ∧ paid = false then books else (books.perform request).getD books

section Shown

variable (derivation : AddressDerivation) (ledger : Ledger)

def standingOf (session : Session) : Option AccountData → Option Standing
  | some (.grant grant) =>
    some (if grant.epoch = session.epoch then .current grant.caps grant.expiry else .ended)
  | _ => none

def bookOf (location : Pubkey) (session : Session) : Book where
  owner := session.owner
  grants grantee := do
    let (grantAddress, _) ← derivation.find (grantSeeds location grantee)
    standingOf session (ledger grantAddress)
  bumps := session.epoch.toNat

def booksOf : Books := fun sessionKey ↦
  match derivation.find (sessionSeeds sessionKey) with
  | some (location, _) =>
    match ledger location with
    | some (.session session) => some (bookOf derivation ledger location session)
    | _ => none
  | none => none

variable {derivation ledger} {sessionKey location target grantee grantAddress : Pubkey} {bump : UInt8}
variable {session : Session}

theorem booksOf_eq_some {book : Book} : booksOf derivation ledger sessionKey = some book ↔
    ∃ location bump session, derivation.find (sessionSeeds sessionKey) = some (location, bump) ∧
      ledger location = some (.session session) ∧ bookOf derivation ledger location session = book := by
  unfold booksOf
  split
  · next location bump hfind =>
    split
    · next session hsession => simp [hfind, hsession]
    · next hnone =>
      simp only [reduceCtorEq, false_iff]
      rintro ⟨location', bump', session, hfind', hsession, _⟩
      obtain ⟨rfl, -⟩ := Prod.mk.inj (Option.some.inj (hfind.symm.trans hfind'))
      exact hnone session hsession
  · next hfind => simp [hfind]

theorem booksOf_of_session (hfind : derivation.find (sessionSeeds sessionKey) = some (location, bump))
    (hsession : ledger location = some (.session session)) :
    booksOf derivation ledger sessionKey = some (bookOf derivation ledger location session) :=
  booksOf_eq_some.mpr ⟨location, bump, session, hfind, hsession, rfl⟩

theorem sessionSeeds_injective {sessionKey' : Pubkey}
    (hseeds : sessionSeeds sessionKey = sessionSeeds sessionKey') : sessionKey = sessionKey' :=
  Subtype.ext (List.append_cancel_left hseeds)

variable {bump' : UInt8} {data : Option AccountData}

/-- Different session keys have different session accounts. -/
theorem location_injective {sessionKey' : Pubkey}
    (hfind : derivation.find (sessionSeeds sessionKey) = some (location, bump))
    (hfind' : derivation.find (sessionSeeds sessionKey') = some (location, bump')) :
    sessionKey = sessionKey' :=
  sessionSeeds_injective (AddressDerivation.create_seeds_injective
    (AddressDerivation.create_of_find hfind) (AddressDerivation.create_of_find hfind')).1

/-- Different grants have different accounts. -/
theorem grantAddress_injective {location' grantee' : Pubkey}
    (hfind : derivation.find (grantSeeds location grantee) = some (grantAddress, bump))
    (hfind' : derivation.find (grantSeeds location' grantee') = some (grantAddress, bump')) :
    location = location' ∧ grantee = grantee' :=
  grantSeeds_injective (AddressDerivation.create_seeds_injective
    (AddressDerivation.create_of_find hfind) (AddressDerivation.create_of_find hfind')).1

/-- A session account is never a grant account. -/
theorem location_ne_grantAddress {location' : Pubkey}
    (hfind : derivation.find (sessionSeeds sessionKey) = some (location, bump))
    (hfind' : derivation.find (grantSeeds location' grantee) = some (grantAddress, bump')) :
    location ≠ grantAddress := by
  rintro rfl
  have hseeds := (AddressDerivation.create_seeds_injective
    (AddressDerivation.create_of_find hfind) (AddressDerivation.create_of_find hfind')).1
  have hlength := congrArg List.length hseeds
  simp [sessionSeeds, grantSeeds, sessionKey.2, location'.2, grantee.2, publicKeySize, ascii] at hlength

theorem grants_bookOf_update {wallet : Pubkey}
    (hne : ∀ grantAddress bump, derivation.find (grantSeeds location wallet) = some (grantAddress, bump) →
      grantAddress ≠ target) :
    (bookOf derivation (Function.update ledger target data) location session).grants wallet =
      (bookOf derivation ledger location session).grants wallet := by
  cases hfound : derivation.find (grantSeeds location wallet) with
  | none => simp [bookOf, hfound]
  | some found => simp [bookOf, hfound, Function.update_of_ne (hne found.1 found.2 hfound)]

theorem bookOf_update (hne : ∀ wallet grantAddress bump,
      derivation.find (grantSeeds location wallet) = some (grantAddress, bump) → grantAddress ≠ target) :
    bookOf derivation (Function.update ledger target data) location session =
      bookOf derivation ledger location session := by
  refine congrArg (Book.mk session.owner · session.epoch.toNat) ?_
  funext wallet
  exact grants_bookOf_update (hne wallet)

/-- A book is not affected by an account that is neither its session nor one of its grants. -/
theorem booksOf_frame
    (hother : ∀ location bump, derivation.find (sessionSeeds sessionKey) = some (location, bump) →
      location ≠ target ∧ ∀ wallet grantAddress bump',
        derivation.find (grantSeeds location wallet) = some (grantAddress, bump') →
          grantAddress ≠ target) :
    booksOf derivation (Function.update ledger target data) sessionKey =
      booksOf derivation ledger sessionKey := by
  unfold booksOf
  split
  · next location bump hfind =>
    obtain ⟨hlocation, hgrants⟩ := hother location bump hfind
    rw [Function.update_of_ne hlocation]
    simp only [bookOf_update hgrants]
  · rfl

theorem booksOf_update_session (hfind : derivation.find (sessionSeeds sessionKey) = some (location, bump))
    (session : Session) :
    booksOf derivation (Function.update ledger location (some (.session session))) =
      Function.update (booksOf derivation ledger) sessionKey
        (some (bookOf derivation ledger location session)) := by
  funext other
  by_cases hsame : other = sessionKey
  · rw [hsame, Function.update_self, booksOf_of_session hfind (Function.update_self ..), bookOf_update]
    intro wallet grantAddress grantBump hgrant
    exact (location_ne_grantAddress hfind hgrant).symm
  · rw [Function.update_of_ne hsame]
    apply booksOf_frame
    intro location' bump' hfind'
    refine ⟨?_, fun grantee grantAddress grantBump hgrant ↦
      (location_ne_grantAddress hfind hgrant).symm⟩
    rintro rfl
    exact hsame (location_injective hfind' hfind)

/-- A change of one grant account shows in one book. -/
theorem booksOf_update_grant (hfind : derivation.find (sessionSeeds sessionKey) = some (location, bump))
    (hsession : ledger location = some (.session session)) {grantBump : UInt8}
    (hgrant : derivation.find (grantSeeds location grantee) = some (grantAddress, grantBump))
    (data : Option AccountData) :
    booksOf derivation (Function.update ledger grantAddress data) =
      Function.update (booksOf derivation ledger) sessionKey
        (some { bookOf derivation ledger location session with
          grants := Function.update (bookOf derivation ledger location session).grants grantee
            (standingOf session data) }) := by
  funext other
  by_cases hsame : other = sessionKey
  · have hsession' : Function.update ledger grantAddress data location = some (.session session) := by
      rw [Function.update_of_ne (location_ne_grantAddress hfind hgrant), hsession]
    rw [hsame, Function.update_self, booksOf_of_session hfind hsession']
    refine congrArg (fun grants ↦ some (Book.mk session.owner grants session.epoch.toNat)) ?_
    funext wallet
    by_cases hwallet : wallet = grantee
    · simp [bookOf, hwallet, hgrant]
    · rw [Function.update_of_ne hwallet]
      apply grants_bookOf_update
      rintro _ walletBump hfound rfl
      exact hwallet (grantAddress_injective hfound hgrant).2
  · rw [Function.update_of_ne hsame]
    apply booksOf_frame
    intro location' bump' hfind'
    refine ⟨location_ne_grantAddress hfind' hgrant, ?_⟩
    rintro grantee' _ grantBump' hgrant' rfl
    obtain rfl := (grantAddress_injective hgrant' hgrant).1
    exact hsame (location_injective hfind' hfind)

end Shown

/-! ## One instruction -/

section Simulation

variable {derivation : AddressDerivation} {privileges : Privileges} {before after : Ledger}
variable {owner sessionKey location grantee grantAddress : Pubkey} {bump : UInt8} {session : Session}

theorem perform_of_book {books : Books} {book : Book} {operation : Operation}
    (hbook : books sessionKey = some book) (howner : book.owner = owner) :
    books.perform (.operate owner sessionKey operation) =
      (book.operate operation).map fun after ↦ Function.update books sessionKey (some after) := by
  rw [Books.perform, hbook]
  exact if_pos howner

/-- No grant lies where a session belongs, and no session where a grant belongs. -/
theorem WellFormed.not_grant (hwell : WellFormed derivation before)
    (hfind : derivation.find (sessionSeeds sessionKey) = some (location, bump)) (grant : Grant) :
    before location ≠ some (.grant grant) := by
  intro hgrant
  exact location_ne_grantAddress hfind (hwell.grants location grant hgrant).1 rfl

theorem WellFormed.not_session (hwell : WellFormed derivation before)
    (hfind : derivation.find (grantSeeds location grantee) = some (grantAddress, bump))
    (session : Session) : before grantAddress ≠ some (.session session) := by
  intro hsession
  exact location_ne_grantAddress (hwell.sessions grantAddress session hsession) hfind rfl

/-- Above a grant there is its session, whose epoch is not below. -/
theorem WellFormed.exists_session (hwell : WellFormed derivation before)
    (hfind : derivation.find (grantSeeds location grantee) = some (grantAddress, bump)) {grant : Grant}
    (hstored : before grantAddress = some (.grant grant)) :
    ∃ session, before location = some (.session session) ∧ grant.epoch ≤ session.epoch := by
  obtain ⟨hown, _, session, hsession, hle⟩ := hwell.grants grantAddress grant hstored
  obtain ⟨rfl, -⟩ := grantAddress_injective hown hfind
  exact ⟨session, hsession, hle⟩

/-- The epoch after a bump is above that of every grant, so all of them have ended. -/
theorem WellFormed.bookOf_bump (hwell : WellFormed derivation before)
    (hsession : before location = some (.session session)) (hlimit : session.epoch.toNat + 1 < 2 ^ 16) :
    bookOf derivation before location { session with epoch := session.epoch + 1 } =
      { bookOf derivation before location session with
        grants := fun grantee ↦
          ((bookOf derivation before location session).grants grantee).map fun _ ↦ .ended
        bumps := session.epoch.toNat + 1 } := by
  refine congrArg₂ (Book.mk session.owner) ?_ (toNat_epoch_add_one hlimit)
  funext grantee
  cases hfound : derivation.find (grantSeeds location grantee) with
  | none => simp [bookOf, hfound]
  | some found =>
    cases hdata : before found.1 with
    | none => simp [bookOf, hfound, hdata, standingOf]
    | some data =>
      cases data with
      | session other => simp [bookOf, hfound, hdata, standingOf]
      | grant grant =>
        obtain ⟨parent, hparent, hle⟩ := hwell.exists_session hfound hdata
        rw [hsession] at hparent
        obtain rfl := AccountData.session.inj (Option.some.inj hparent)
        have hne : grant.epoch ≠ session.epoch + 1 := by
          intro heq
          rw [UInt16.le_iff_toNat_le, heq, toNat_epoch_add_one hlimit] at hle
          omega
        simp [bookOf, hfound, hdata, standingOf, hne]

/-- A session that is registered has no grants yet. -/
theorem WellFormed.bookOf_register (hwell : WellFormed derivation before) (hnone : before location = none) :
    bookOf derivation before location ⟨sessionKey, owner, 0, bump⟩ = ⟨owner, fun _ ↦ none, 0⟩ := by
  refine congrArg (Book.mk owner · 0) ?_
  funext grantee
  cases hfound : derivation.find (grantSeeds location grantee) with
  | none => rfl
  | some found =>
    cases hdata : before found.1 with
    | none => simp [hdata, standingOf]
    | some data =>
      cases data with
      | session other => simp [hdata, standingOf]
      | grant grant =>
        obtain ⟨parent, hparent, -⟩ := hwell.exists_session hfound hdata
        rw [hnone] at hparent
        cases hparent

theorem booksOf_eq_none (hfind : derivation.find (sessionSeeds sessionKey) = some (location, bump))
    (hnone : ∀ session, before location ≠ some (.session session)) :
    booksOf derivation before sessionKey = none := by
  rw [Option.eq_none_iff_forall_ne_some]
  intro book hbook
  obtain ⟨location', bump', session, hfind', hsession, _⟩ := booksOf_eq_some.mp hbook
  obtain ⟨rfl, -⟩ := Prod.mk.inj (Option.some.inj (hfind.symm.trans hfind'))
  exact hnone session hsession

variable {instruction : Instruction} {request : Request}

/-- An instruction that has run has done to the accounts what its request does to the books. -/
theorem perform_of_effect (hwell : WellFormed derivation before)
    (hinstruction : request.instruction derivation = some instruction)
    (heffect : Effect derivation privileges before instruction after) :
    (booksOf derivation before).perform request = some (booksOf derivation after) := by
  cases Request.resolves hinstruction with
  | register =>
    cases heffect with
    | registerSession _ _ hfind hnone =>
      rw [booksOf_update_session hfind, hwell.bookOf_register hnone, Books.perform,
        booksOf_eq_none hfind (by simp [hnone])]
  | transferOwnership hfind =>
    cases heffect with
    | transferOwnership howned =>
      rw [perform_of_book (booksOf_of_session hfind howned.found) howned.owner_eq,
        booksOf_update_session hfind]
      rfl
  | grant hfind hgrant =>
    cases heffect with
    | grant howned _ _ hcaps =>
      rw [perform_of_book (booksOf_of_session hfind howned.found) howned.owner_eq,
        booksOf_update_grant hfind howned.found hgrant, Book.operate, if_pos hcaps]
      simp [standingOf]
  | @revoke _ _ grantee location _ _ _ hfind hgrant =>
    cases heffect with
    | @revoke _ _ _ session _ howned hstored _ =>
      have hheld : ((bookOf derivation before location session).grants grantee).isSome = true := by
        simp [bookOf, hgrant, hstored, standingOf]
      rw [perform_of_book (booksOf_of_session hfind howned.found) howned.owner_eq,
        booksOf_update_grant hfind howned.found hgrant, Book.operate, if_pos hheld]
      rfl
  | bumpEpoch hfind =>
    cases heffect with
    | bumpEpoch howned hlimit =>
      rw [perform_of_book (booksOf_of_session hfind howned.found) howned.owner_eq,
        booksOf_update_session hfind, hwell.bookOf_bump howned.found hlimit, Book.operate]
      exact congrArg (Option.map _) (if_pos hlimit)

theorem perform_operate_eq_some {books after : Books} {operation : Operation}
    (hperform : books.perform (.operate owner sessionKey operation) = some after) :
    ∃ book book', books sessionKey = some book ∧ book.owner = owner ∧
      book.operate operation = some book' := by
  cases hbook : books sessionKey with
  | none => simp [Books.perform, hbook] at hperform
  | some book =>
    simp only [Books.perform, hbook, Option.ite_none_right_eq_some, Option.map_eq_some_iff] at hperform
    obtain ⟨howner, book', hoperate, _⟩ := hperform
    exact ⟨book, book', rfl, howner, hoperate⟩

/-- Who owns the book owns the session account, and has signed for it. -/
theorem WellFormed.ownerSigned (hwell : WellFormed derivation before)
    (hfind : derivation.find (sessionSeeds sessionKey) = some (location, bump)) {book : Book}
    (hbook : booksOf derivation before sessionKey = some book)
    (hsigned : book.owner ∈ privileges.signers) :
    ∃ session, bookOf derivation before location session = book ∧
      OwnerSigned derivation privileges before location book.owner session := by
  obtain ⟨location', bump', session, hfind', hsession, rfl⟩ := booksOf_eq_some.mp hbook
  obtain ⟨rfl, -⟩ := Prod.mk.inj (Option.some.inj (hfind.symm.trans hfind'))
  exact ⟨session, rfl, hsession, hsigned,
    AddressDerivation.create_of_find (hwell.sessions location session hsession), rfl⟩

theorem exists_grant_of_grants (hgrant : derivation.find (grantSeeds location grantee) =
      some (grantAddress, bump))
    (hheld : ((bookOf derivation before location session).grants grantee).isSome = true) :
    ∃ grant, before grantAddress = some (.grant grant) := by
  cases hdata : before grantAddress with
  | none => simp [bookOf, hgrant, hdata, standingOf] at hheld
  | some data =>
    cases data with
    | session other => simp [bookOf, hgrant, hdata, standingOf] at hheld
    | grant grant => exact ⟨grant, rfl⟩

/-- A new account for a grant has to be paid for, and one that is there is taken as it is. -/
theorem initAccountIfNeeded_iff (hnot : ∀ session, before grantAddress ≠ some (.session session)) :
    initAccountIfNeeded privileges before grantAddress = .ok () ↔
      (before grantAddress = none → grantAddress ∈ privileges.funded) := by
  unfold initAccountIfNeeded
  split
  · next hnone => simp [require_eq_ok, hnone]
  · next hgrant => simp [hgrant]
  · next session hsession => exact absurd hsession (hnot session)

/-- The account of a grant is missing exactly when the book has no standing for the wallet. -/
theorem WellFormed.opens_grant_iff (hwell : WellFormed derivation before)
    (hfind : derivation.find (sessionSeeds sessionKey) = some (location, bump))
    (hsession : before location = some (.session session)) {grantBump : UInt8}
    (hgrant : derivation.find (grantSeeds location grantee) = some (grantAddress, grantBump)) {caps : Caps}
    {expiry : Int64} :
    (booksOf derivation before).opens (.operate owner sessionKey (.grant grantee caps expiry)) = true ↔
      before grantAddress = none := by
  rw [Books.opens, booksOf_of_session hfind hsession, Option.bind_some, Option.isNone_iff_eq_none]
  cases hdata : before grantAddress with
  | none => simp [bookOf, hgrant, hdata, standingOf]
  | some data =>
    cases data with
    | session other => exact absurd hdata (hwell.not_session hgrant other)
    | grant grant => simp [bookOf, hgrant, hdata, standingOf]

/-- An instruction that has run has paid for the account that it opened. -/
theorem funded_of_execute (hwell : WellFormed derivation before)
    (hinstruction : request.instruction derivation = some instruction) {event : Event}
    (hexecute : execute derivation privileges before instruction = .ok (after, event))
    (hopens : (booksOf derivation before).opens request = true) :
    instruction.target ∈ privileges.funded := by
  cases Request.resolves hinstruction with
  | register hfind =>
    simp only [execute, registerSession, initAccount, bind_eq_ok, require_eq_ok] at hexecute
    obtain ⟨_, _, _, _, _, _, _, _, _, ⟨_, _, hfunded⟩, _⟩ := hexecute
    exact hfunded
  | grant hfind hgrant =>
    simp only [execute, grant, bind_eq_ok, require_eq_ok, ownedSession_eq_ok] at hexecute
    obtain ⟨session, howned, _, _, _, _, _, hinit, _⟩ := hexecute
    exact (initAccountIfNeeded_iff (hwell.not_session hgrant)).mp hinit
      ((hwell.opens_grant_iff hfind howned.found hgrant).mp hopens)
  | transferOwnership | revoke | bumpEpoch => cases hopens

/-- A request that the books allow is carried out by the program, if its new account is paid for. -/
theorem execute_of_perform (hwell : WellFormed derivation before)
    (hinstruction : request.instruction derivation = some instruction)
    (hfit : privileges.Fit request instruction.target)
    (hfunded : (booksOf derivation before).opens request = true → instruction.target ∈ privileges.funded)
    (hunderived : ∀ input, derivation.create input ≠ some request.owner) {books : Books}
    (hperform : (booksOf derivation before).perform request = some books) :
    ∃ result, execute derivation privileges before instruction = .ok result := by
  have hsigned : request.owner ∈ privileges.signers := (hfit.signers _).mpr (.inl rfl)
  have hpayer : request.owner ∈ privileges.writable := (hfit.writable _).mpr (.inl rfl)
  have htarget : instruction.target ∈ privileges.writable := (hfit.writable _).mpr (.inr rfl)
  cases Request.resolves hinstruction with
  | @register owner sessionKey location bump hfind =>
    have hkey : sessionKey ∈ privileges.signers :=
      (hfit.signers _).mpr (.inr (List.mem_singleton_self _))
    have hnone : before location = none := by
      cases hdata : before location with
      | none => rfl
      | some data =>
        cases data with
        | grant grant => exact absurd hdata (hwell.not_grant hfind grant)
        | session session =>
          rw [Books.perform, booksOf_of_session hfind hdata] at hperform
          cases hperform
    simp only [execute, registerSession, initAccount, bind_eq_ok, require_eq_ok, canonicalBump_eq_ok]
    exact ⟨_, (), hkey, (), hsigned, (), trivial, bump, hfind, (), ⟨(), hnone, hfunded rfl⟩, (), htarget,
      (), hpayer, rfl⟩
  | transferOwnership hfind =>
    obtain ⟨book, _, hbook, rfl, _⟩ := perform_operate_eq_some hperform
    obtain ⟨session, _, howned⟩ := hwell.ownerSigned hfind hbook hsigned
    simp only [execute, transferOwnership, bind_eq_ok, require_eq_ok, ownedSession_eq_ok]
    exact ⟨_, session, howned, (), htarget, rfl⟩
  | grant hfind hgrant =>
    obtain ⟨book, book', hbook, rfl, hoperate⟩ := perform_operate_eq_some hperform
    obtain ⟨session, _, howned⟩ := hwell.ownerSigned hfind hbook hsigned
    have hinit := (initAccountIfNeeded_iff (hwell.not_session hgrant)).mpr fun hnone ↦
      hfunded ((hwell.opens_grant_iff hfind howned.found hgrant).mpr hnone)
    have hcaps := of_decide_eq_true (Option.ite_none_right_eq_some.mp hoperate).1
    simp only [execute, grant, bind_eq_ok, require_eq_ok, ownedSession_eq_ok, canonicalBump_eq_ok]
    exact ⟨_, session, howned, (), trivial, _, hgrant, (), hinit, (), htarget, (), hpayer, (), hcaps, rfl⟩
  | @revoke _ _ _ _ grantAddress _ _ hfind hgrant =>
    obtain ⟨book, book', hbook, rfl, hoperate⟩ := perform_operate_eq_some hperform
    obtain ⟨session, rfl, howned⟩ := hwell.ownerSigned hfind hbook hsigned
    obtain ⟨grant, hstored⟩ := exists_grant_of_grants hgrant (Option.ite_none_right_eq_some.mp hoperate).1
    have hcreate := AddressDerivation.create_of_find (hwell.grants _ grant hstored).1
    rw [(hwell.session_eq hstored (AddressDerivation.create_of_find hgrant)).1] at hcreate
    have hdistinct : grantAddress ≠ session.owner := by
      rintro rfl
      exact hunderived _ hcreate
    simp only [execute, revoke, bind_eq_ok, require_eq_ok, ownedSession_eq_ok, loadGrant_eq_ok]
    exact ⟨_, session, howned, grant, hstored, (), hcreate, (), htarget, (), hpayer, (),
      hdistinct, rfl⟩
  | bumpEpoch hfind =>
    obtain ⟨book, book', hbook, rfl, hoperate⟩ := perform_operate_eq_some hperform
    obtain ⟨session, rfl, howned⟩ := hwell.ownerSigned hfind hbook hsigned
    have hlimit := (Option.ite_none_right_eq_some.mp hoperate).1
    simp only [execute, bumpEpoch, bind_eq_ok, require_eq_ok, ownedSession_eq_ok]
    exact ⟨_, session, howned, (), htarget, (), hlimit, rfl⟩

/-- One transaction for a request does to the accounts what the request does to the books. -/
theorem booksOf_process (hwell : WellFormed derivation before)
    (hinstruction : request.instruction derivation = some instruction)
    (hfit : privileges.Fit request instruction.target)
    (hunderived : ∀ input, derivation.create input ≠ some request.owner) {paid : Bool}
    (hpaid : instruction.target ∈ privileges.funded ↔ paid = true) :
    WellFormed derivation (process derivation before ⟨privileges, [instruction]⟩) ∧
      booksOf derivation (process derivation before ⟨privileges, [instruction]⟩) =
        (booksOf derivation before).step request paid := by
  rcases process_cases derivation before ⟨privileges, [instruction]⟩ with
    ⟨after, events, hrun, hafter⟩ | ⟨error, hrun, hsame⟩
  · rw [hafter]
    refine ⟨(authorizedRun_of_executeAll hwell hrun).1, ?_⟩
    obtain ⟨middle, event, _, hfirst, hrest, _⟩ := executeAll_cons_eq_ok.mp hrun
    obtain ⟨rfl, _⟩ := Prod.mk.inj (Except.ok.inj hrest)
    have hpayed : ¬ ((booksOf derivation before).opens request = true ∧ paid = false) := by
      rintro ⟨hopens, rfl⟩
      exact Bool.false_ne_true (hpaid.mp (funded_of_execute hwell hinstruction hfirst hopens))
    rw [Books.step, if_neg hpayed, perform_of_effect hwell hinstruction (effect_of_execute hfirst),
      Option.getD_some]
  · rw [hsame]
    refine ⟨hwell, ?_⟩
    rw [Books.step]
    split_ifs with hunpaid
    · rfl
    · have hfunded : (booksOf derivation before).opens request = true →
          instruction.target ∈ privileges.funded := by
        intro hopens
        exact hpaid.mpr (Bool.eq_true_of_not_eq_false fun hnot ↦ hunpaid ⟨hopens, hnot⟩)
      cases hperform : (booksOf derivation before).perform request with
      | none => rfl
      | some books =>
        obtain ⟨⟨after, event⟩, hexecute⟩ :=
          execute_of_perform hwell hinstruction hfit hfunded hunderived hperform
        have hok : executeAll derivation privileges before [instruction] = .ok (after, [event]) :=
          executeAll_cons_eq_ok.mpr ⟨after, event, [], hexecute, rfl, rfl⟩
        cases hok.symm.trans hrun

end Simulation

/-! ## Submissions that land -/

section Landing

variable {Private : Type} (crypto : WireEd25519 Private) (source : Source) (hash : AddressHash)
variable (derivation : AddressDerivation) (dispatch : Dispatch) (programID : Pubkey)

/-- What becomes of a transaction: the cluster does not take it, or it does, and the payer can pay for a new
account or cannot. -/
inductive Outcome
  | dropped
  | taken (paid : Bool)

/-- A submission under the blockhash of its moment, and what becomes of it. -/
structure Landing (Private : Type) where
  submission : Submission Private
  blockhash : String
  outcome : Outcome

/-- A signed transaction that the cluster takes is carried out. -/
def land (ledger : Ledger) (landing : Landing Private) : Ledger :=
  match landing.outcome, landing.submission.send crypto source hash landing.blockhash with
  | .taken paid, some (.ok tx) =>
    match signedMessage crypto tx with
    | some message =>
      match deliver dispatch programID (if paid then message.accountKeys else []) message with
      | some transaction => process derivation ledger transaction
      | none => ledger
    | none => ledger
  | _, _ => ledger

/-- The blockhash is one, and the addresses of the accounts exist. -/
def Landable (landing : Landing Private) : Prop :=
  (∃ bh, parseBlockhash landing.blockhash = .ok bh) ∧
    ∃ instruction, (landing.submission.request crypto).instruction derivation = some instruction

/-- Every submission that is taken is a request, but `mosey session` has no command for a revocation. -/
def Books.land (books : Books) (landing : Landing Private) : Books :=
  match landing.outcome, landing.submission with
  | .dropped, _ => books
  | .taken _, .command _ _ (.revoke _) => books
  | .taken paid, submission => books.step (submission.request crypto) paid

variable {crypto source hash derivation dispatch programID} {ledger : Ledger} {landing : Landing Private}

theorem land_of_send {submission : Submission Private} {blockhash : String} (books : Books) (paid : Bool) :
    (submission.send crypto source hash blockhash = none →
        books.land crypto ⟨submission, blockhash, .taken paid⟩ = books) ∧
      ∀ sent, submission.send crypto source hash blockhash = some sent →
        books.land crypto ⟨submission, blockhash, .taken paid⟩ =
          books.step (submission.request crypto) paid := by
  cases submission with
  | register | browser => exact ⟨by simp [Submission.send], fun _ _ ↦ rfl⟩
  | command owner sessionKey operation =>
    cases operation with
    | revoke grantee => exact ⟨fun _ ↦ rfl, by simp [Submission.send, Source.command]⟩
    | _ => exact ⟨by simp [Submission.send, Source.command], fun _ _ ↦ rfl⟩

theorem mem_accountKeys_of_writable {message : LegacyMessage} {funded : List Pubkey} {key : Pubkey}
    (hwritable : key ∈ (privilegesOf message funded).writable) : key ∈ message.accountKeys := by
  obtain ⟨entry, hentry, rfl⟩ := List.mem_map.mp hwritable
  exact List.fst_mem_of_mem_zipIdx (List.mem_of_mem_filter hentry)

theorem exists_secret_owner (crypto : WireEd25519 Private) (submission : Submission Private) :
    ∃ secret, (submission.request crypto).owner = crypto.pubkey secret := by
  cases submission <;> exact ⟨_, rfl⟩

section Assumptions

variable (hprog : source.programPubkey = .ok programID) (hmirrors : Mirrors derivation hash programID)
variable (hother : programID ≠ computeBudgetProgramID)
variable (hunderived : ∀ secret input, derivation.create input ≠ some (crypto.pubkey secret))
include hprog hmirrors hother hunderived

/-- One landing does to the accounts what it does to the books. -/
theorem booksOf_land (hlandable : Landable crypto derivation landing)
    (hwell : WellFormed derivation ledger) :
    WellFormed derivation (land crypto source hash derivation dispatch programID ledger landing) ∧
      booksOf derivation (land crypto source hash derivation dispatch programID ledger landing) =
        (booksOf derivation ledger).land crypto landing := by
  obtain ⟨submission, blockhash, outcome⟩ := landing
  obtain ⟨⟨bh, hblockhash⟩, instruction, hinstruction⟩ := hlandable
  cases outcome with
  | dropped => exact ⟨hwell, rfl⟩
  | taken paid =>
    cases hsend : submission.send crypto source hash blockhash with
    | none =>
      have hland : land crypto source hash derivation dispatch programID ledger
          ⟨submission, blockhash, .taken paid⟩ = ledger := by
        simp only [land, hsend]
      rw [hland, (land_of_send _ paid).1 hsend]
      exact ⟨hwell, rfl⟩
    | some sent =>
      obtain ⟨ix, tx, rfl, hmeans, hsigned⟩ :=
        Submission.signed dispatch hprog hmirrors hblockhash hinstruction hsend
      have harrives := hmeans.arrives hother bh
      generalize messageOf _ bh (withPriority [ix]) = message at harrives hsigned
      obtain ⟨hdeliver, hfit⟩ := harrives (if paid then message.accountKeys else [])
      have htarget := mem_accountKeys_of_writable ((hfit.writable _).mpr (.inr rfl))
      have hpaid : instruction.target ∈ (if paid then message.accountKeys else []) ↔ paid = true := by
        cases paid with
        | true => exact iff_of_true htarget rfl
        | false => simp
      obtain ⟨secret, howner⟩ := exists_secret_owner crypto submission
      rw [(land_of_send _ paid).2 _ hsend, land]
      simp only [hsend, hsigned, hdeliver]
      exact booksOf_process hwell hinstruction hfit (howner ▸ hunderived secret) hpaid

/-- The books follow any sequence of landings. -/
theorem booksOf_landings {landings : List (Landing Private)}
    (hlandable : ∀ landing ∈ landings, Landable crypto derivation landing)
    (hwell : WellFormed derivation ledger) :
    WellFormed derivation
        (landings.foldl (land crypto source hash derivation dispatch programID) ledger) ∧
      booksOf derivation (landings.foldl (land crypto source hash derivation dispatch programID) ledger) =
        landings.foldl (Books.land crypto) (booksOf derivation ledger) := by
  induction landings generalizing ledger with
  | nil => exact ⟨hwell, rfl⟩
  | cons landing landings ih =>
    obtain ⟨hfirst, hrest⟩ := List.forall_mem_cons.mp hlandable
    obtain ⟨hwell', hbooks⟩ := booksOf_land hprog hmirrors hother hunderived hfirst hwell
    rw [List.foldl_cons, List.foldl_cons, ← hbooks]
    exact ih hrest hwell'

end Assumptions

/-- A grant in force is one that stands in the book. -/
theorem WellFormed.liveGrant_iff {derivation : AddressDerivation} (hwell : WellFormed derivation ledger)
    {location wallet : Pubkey} {session : Session} {caps : Caps} {expiry : Int64}
    (hsession : ledger location = some (.session session)) :
    LiveGrant ledger location wallet.1 caps expiry ↔
      (bookOf derivation ledger location session).grants wallet = some (.current caps expiry) := by
  have hepoch : sessionEpoch ledger location = some session.epoch :=
    sessionEpoch_eq_some.mpr ⟨session, hsession, rfl⟩
  constructor
  · rintro ⟨grantAddress, grant, hstored, ⟨rfl, hwallet⟩, hcurrent, rfl, rfl⟩
    obtain rfl : grant.grantee = wallet := Subtype.ext hwallet
    have hsame : grant.epoch = session.epoch := (Option.some.inj (hepoch.symm.trans hcurrent)).symm
    simp [bookOf, (hwell.grants grantAddress grant hstored).1, hstored, standingOf, hsame]
  · intro hgrants
    obtain ⟨⟨grantAddress, bump⟩, hfind, hstanding⟩ := Option.bind_eq_some_iff.mp hgrants
    obtain ⟨grant, hstored⟩ := exists_grant_of_grants hfind (Option.isSome_of_eq_some hgrants)
    obtain ⟨hlocation, rfl⟩ := hwell.session_eq hstored (AddressDerivation.create_of_find hfind)
    simp only [hstored, standingOf, Option.some.injEq] at hstanding
    split at hstanding
    · next hsame =>
      obtain ⟨rfl, rfl⟩ := Standing.current.inj hstanding
      exact ⟨grantAddress, grant, hstored, ⟨hlocation, rfl⟩, by rw [hepoch, hsame], rfl, rfl⟩
    · cases hstanding

/-- Whoever submits whatever from the command line and from browsers, in any order and from any state of
the program, whichever transactions the cluster takes and whoever can pay: the accounts show the books after
these requests, refused ones included, and a server that has refreshed shows the owner and the unexpired
grants of the book of its session. -/
theorem landings_refine_books (dispatch : Dispatch) (hprog : source.programPubkey = .ok programID)
    (hmirrors : Mirrors derivation hash programID) (hother : programID ≠ computeBudgetProgramID)
    (hunderived : ∀ secret input, derivation.create input ≠ some (crypto.pubkey secret))
    (hreach : (machine derivation).Reachable ledger) {landings : List (Landing Private)}
    (hlandable : ∀ landing ∈ landings, Landable crypto derivation landing) :
    let books := landings.foldl (Books.land crypto) (booksOf derivation ledger)
    let after := landings.foldl (land crypto source hash derivation dispatch programID) ledger
    booksOf derivation after = books ∧
      ∀ server sessionKey now snap, server.sessionKey = sessionKey.1 → Refreshed server after now snap →
        ∃ book, books sessionKey = some book ∧ snap.owner = book.owner.1 ∧
          ∀ (wallet : Pubkey) caps, snap.grantCaps wallet.1 = some caps ↔
            ∃ expiry : Int64, book.grants wallet = some (.current caps expiry) ∧
              (expiry = 0 ∨ now.unix < expiry.toInt) := by
  intro books after
  obtain ⟨hwell, hbooks⟩ : WellFormed derivation after ∧ booksOf derivation after = books :=
    booksOf_landings hprog hmirrors hother hunderived hlandable (wellFormed_of_reachable hreach)
  refine ⟨hbooks, ?_⟩
  intro server sessionKey now snap hkey hrefreshed
  obtain ⟨location, session, fetched, hfetches, rfl⟩ := hrefreshed.fetches hkey
  have hfind := hwell.sessions location session hfetches.found
  rw [hfetches.key] at hfind
  refine ⟨_, hbooks ▸ booksOf_of_session hfind hfetches.found, ?_, ?_⟩
  · rw [hfetches.session_eq]
    rfl
  · intro wallet caps
    rw [hfetches.grantCaps_iff hwell]
    apply exists_congr
    intro expiry
    rw [hwell.liveGrant_iff hfetches.found]

end Landing

section Example

/-- Key 1 registers the session of key 2 and grants `write` to key 4 in the browser; key 3, who does not
own the session, then tries to end all grants, and a transfer by key 1 is not taken. -/
def exampleLandings : List (Landing (Fin 8)) :=
  [(.register (exampleSecret 1) (exampleSecret 2), .taken true), (exampleSubmission, .taken true),
    (.command (exampleSecret 3) (freeKey 2) .bumpEpoch, .taken false),
    (.command (exampleSecret 1) (freeKey 2) (.transferOwnership (freeKey 3)), .dropped)].map
      fun entry ↦ ⟨entry.1, "YMN9Qj5jPNp7j14VPcML1B6xGgcPWVZUGLFU3Mnyfaf", entry.2⟩

def exampleBooks : Books :=
  exampleLandings.foldl (Books.land exampleEd25519) (booksOf exampleDerivation fun _ ↦ none)

theorem exampleLandings_landable :
    ∀ landing ∈ exampleLandings, Landable exampleEd25519 exampleDerivation landing := by
  have hblockhash : parseBlockhash "YMN9Qj5jPNp7j14VPcML1B6xGgcPWVZUGLFU3Mnyfaf" = .ok (freeKey 8) := by
    decide +kernel
  have hresolved : ∀ landing ∈ exampleLandings,
      ((landing.submission.request exampleEd25519).instruction exampleDerivation).isSome = true := by
    decide +kernel
  intro landing hlanding
  obtain ⟨submission, _, rfl⟩ := List.mem_map.mp hlanding
  exact ⟨⟨_, hblockhash⟩, Option.isSome_iff_exists.mp (hresolved _ hlanding)⟩

theorem exampleDerivation_underived (secret : Fin 8) (input : Bytes) :
    exampleDerivation.create input ≠ some (exampleEd25519.pubkey secret) := by
  intro hcreate
  obtain ⟨entry, hentry, hkey⟩ := Option.map_eq_some_iff.mp hcreate
  have hnone : ∀ secret : Fin 8, freeKey 11 ≠ exampleEd25519.pubkey secret ∧
      freeKey 12 ≠ exampleEd25519.pubkey secret := by
    decide +kernel
  rcases List.mem_pair.mp (List.mem_of_find?_eq_some hentry) with rfl | rfl
  · exact (hnone secret).1 hkey
  · exact (hnone secret).2 hkey

theorem landings_refine_books_example :
    ((exampleBooks (freeKey 2)).map (·.owner) = some (freeKey 1) ∧
      (exampleBooks (freeKey 2)).bind (·.grants (freeKey 4)) = some (.current capWrite 60)) ∧
      booksOf exampleDerivation
        (exampleLandings.foldl (land exampleEd25519 exampleDeployed exampleHash exampleDerivation
          exampleDispatch exampleProgram) fun _ ↦ none) = exampleBooks :=
  ⟨by decide +kernel, (landings_refine_books exampleDispatch exampleDeployed_program
    exampleDerivation_mirrors (by decide) exampleDerivation_underived Machine.Reachable.init
    exampleLandings_landable).1⟩

end Example

end Mosey.MoseySession
