import Mathlib.Data.List.Chain
import Mosey.Library.Delegation
import Mosey.Library.Results
import Mosey.Wallet.Delegation

/-!
# Folding a delegation chain

`fold` runs its checks in the order of the source: the length, then each hop on its own, the links
between hops, the leaf, the root's caps, attenuation along the chain and the forge bit of every
delegator but the last. `delegationSystem` is what the chain is meant to say: the owner holds every
cap, a grantee holds its grant, and whoever holds the forge bit passes caps on. The fold succeeds
exactly on the chains that such a derivation follows.
-/

namespace Mosey.Wallet

open Library

/-- A point-in-time view of one session's ownership and live grants. -/
structure Snapshot where
  owner : PublicKey
  grantCaps : PublicKey → Option Caps

section Fold

variable {Private Signature : Type} (crypto : Ed25519 Private Signature)

/-- The body of the first loop. -/
def checkHop (sessionID : PublicKey) (now : Time) (delegation : Delegation Signature) :
    Except WalletError Fields :=
  match delegation.verify crypto with
  | .error err => .error err
  | .ok fields =>
    if sessionID ≠ fields.sessionID then .error .wrongSession
    else if now < fields.notBefore then .error .notYetValid
    else if fields.notAfter < now then .error .expired
    else .ok fields

def checkLinks : List Fields → Except WalletError Unit
  | first :: second :: rest =>
    if first.delegate ≠ second.delegator then .error .brokenLink else checkLinks (second :: rest)
  | _ => .ok ()

/-- The root's caps and whether it is the owner. -/
def rootCaps (snap : Snapshot) (root : PublicKey) : Except WalletError (Caps × Bool) :=
  if root = snap.owner then .ok (allCaps, true)
  else
    match snap.grantCaps root with
    | some caps => .ok (caps, false)
    | none => .error .unknownRoot

/-- The third loop: each hop's caps are below those before it. -/
def attenuate (effective : Caps) : List Fields → Except WalletError Caps
  | [] => .ok effective
  | fields :: rest =>
    if fields.caps.subset effective = false then .error .attenuation
    else attenuate fields.caps rest

/-- The last loop: every delegator but the last hop's holds the forge bit. -/
def checkForge (delegatorCaps : Caps) : List Fields → Except WalletError Unit
  | first :: second :: rest =>
    if delegatorCaps.has capForge = false then .error .forgeRequired
    else checkForge first.caps (second :: rest)
  | _ => .ok ()

/-- The checks that follow the links, on a chain of at least one hop. -/
def foldFields (leafPub : PublicKey) (snap : Snapshot) (first : Fields) (rest : List Fields) :
    Except WalletError (Caps × Bool) :=
  if ((first :: rest).getLast (List.cons_ne_nil _ _)).delegate ≠ leafPub then .error .leafMismatch
  else do
    let (caps, rootIsOwner) ← rootCaps snap first.delegator
    let effective ← attenuate caps (first :: rest)
    checkForge caps (first :: rest)
    return (effective, rootIsOwner)

def foldChain (chain : List (Delegation Signature)) (leafPub sessionID : PublicKey)
    (snap : Snapshot) (now : Time) : Except WalletError (Caps × Bool) :=
  if chain.length = 0 then .error .emptyChain
  else if maxChainDepth < chain.length then .error .chainTooLong
  else do
    let fields ← chain.mapM (checkHop crypto sessionID now)
    checkLinks fields
    match fields with
    | [] => .error .emptyChain
    | first :: rest => foldFields leafPub snap first rest

/-- `Fold` with its three results. -/
def fold (chain : List (Delegation Signature)) (leafPub sessionID : PublicKey) (snap : Snapshot)
    (now : Time) : Caps × Bool × Option WalletError :=
  match foldChain crypto chain leafPub sessionID snap now with
  | .ok (caps, rootIsOwner) => (caps, rootIsOwner, none)
  | .error err => (0, false, some err)

/-- The delegation is signed by its delegator, scoped to the session and valid at `now`. -/
structure Delegation.Live (sessionID : PublicKey) (now : Time) (delegation : Delegation Signature)
    (fields : Fields) : Prop where
  verified : delegation.verify crypto = .ok fields
  session : fields.sessionID = sessionID
  started : fields.notBefore ≤ now
  unexpired : now ≤ fields.notAfter

/-- The caps a wallet holds in the snapshot itself. -/
def RootHolds (snap : Snapshot) (wallet : PublicKey) (caps : Caps) : Prop :=
  (wallet = snap.owner ∧ caps = allCaps) ∨
    (wallet ≠ snap.owner ∧ snap.grantCaps wallet = some caps)

def delegationSystem (sessionID : PublicKey) (snap : Snapshot) (now : Time) :
    DelegationSystem PublicKey Caps (Delegation Signature) where
  below caps limit := caps.subset limit = true
  below_refl := Caps.subset_refl
  below_trans := Caps.subset_trans
  delegable caps := caps.has capForge = true
  root := RootHolds snap
  grants delegation delegator delegate caps := ∃ fields, delegation.Live crypto sessionID now fields ∧
    fields.delegator = delegator ∧ fields.delegate = delegate ∧ fields.caps = caps

/-- The chain follows a derivation from a root of the snapshot to `leafPub`. -/
def Authorized (chain : List (Delegation Signature)) (leafPub sessionID : PublicKey)
    (snap : Snapshot) (now : Time) (caps : Caps) (rootIsOwner : Bool) : Prop :=
  1 ≤ chain.length ∧ chain.length ≤ maxChainDepth ∧ ∃ root held, RootHolds snap root held ∧
    (delegationSystem crypto sessionID snap now).Presents root held chain leafPub caps ∧
    (rootIsOwner = true ↔ root = snap.owner)

variable {crypto} {sessionID leafPub : PublicKey} {snap : Snapshot} {now : Time}

variable {delegation : Delegation Signature} {rootIsOwner : Bool} {caps : Caps} {rest : List Fields}
  {first : Fields} {held : Caps} {chain : List (Delegation Signature)} {err : WalletError}
  {fields : List Fields}

/-- A hop passes the check if it is live. -/
theorem checkHop_eq_ok {fields : Fields} :
    checkHop crypto sessionID now delegation = .ok fields ↔
      delegation.Live crypto sessionID now fields := by
  unfold checkHop
  constructor
  · intro hcheck
    split at hcheck
    · cases hcheck
    · next parsed hverify =>
      split_ifs at hcheck with hsession hstarted hunexpired
      obtain rfl := Except.ok.inj hcheck
      exact ⟨hverify, (not_not.mp hsession).symm, Int.not_lt.mp hstarted, Int.not_lt.mp hunexpired⟩
  · intro hlive
    rw [hlive.verified]
    simp [hlive.session, Int.not_lt.mpr hlive.started, Int.not_lt.mpr hlive.unexpired]

/-- The root holds everything as the owner, and otherwise what it is granted. -/
theorem rootCaps_eq_ok {root : PublicKey} :
    rootCaps snap root = .ok (caps, rootIsOwner) ↔
      RootHolds snap root caps ∧ (rootIsOwner = true ↔ root = snap.owner) := by
  unfold rootCaps RootHolds
  by_cases howner : root = snap.owner
  · rw [if_pos howner]
    cases rootIsOwner <;> simp [howner, eq_comm]
  · rw [if_neg howner]
    cases hgrant : snap.grantCaps root <;> cases rootIsOwner <;> simp [howner]

theorem Delegation.Live.unique {fields fields' : Fields}
    (hlive : delegation.Live crypto sessionID now fields)
    (hlive' : delegation.Live crypto sessionID now fields') : fields = fields' := by
  have hverified := hlive.verified.symm.trans hlive'.verified
  exact Except.ok.inj hverified

theorem grants_iff {fields : Fields} (hlive : delegation.Live crypto sessionID now fields)
    {delegator delegate : PublicKey} :
    (delegationSystem crypto sessionID snap now).grants delegation delegator delegate caps ↔
      fields.delegator = delegator ∧ fields.delegate = delegate ∧ fields.caps = caps := by
  constructor
  · rintro ⟨fields', hlive', hgrants⟩
    rw [hlive.unique hlive']
    exact hgrants
  · intro hgrants
    exact ⟨fields, hlive, hgrants⟩

/-- A presented chain starts with its first hop's delegator. -/
theorem start_eq_delegator {rest : List (Delegation Signature)} {fields : Fields}
    (hlive : delegation.Live crypto sessionID now fields) {start : PublicKey} {held caps : Caps}
    (hpresents : (delegationSystem crypto sessionID snap now).Presents start held
      (delegation :: rest) leafPub caps) : fields.delegator = start := by
  cases rest with
  | nil =>
    have hsingle := DelegationSystem.presents_singleton.mp hpresents
    exact ((grants_iff hlive).mp hsingle.1).1
  | cons second rest =>
    obtain ⟨_, next, passed, hgrants, _⟩ := DelegationSystem.presents_cons_cons.mp hpresents
    exact ((grants_iff hlive).mp hgrants).1

/-- A hop may only take capabilities away. -/
theorem attenuate_cons_eq_ok {held caps : Caps} :
    attenuate held (first :: rest) = .ok caps ↔
      first.caps.subset held = true ∧ attenuate first.caps rest = .ok caps := by
  rw [attenuate]
  cases first.caps.subset held <;> simp

theorem checkLinks_cons_eq_ok {first second : Fields} :
    checkLinks (first :: second :: rest) = .ok () ↔
      first.delegate = second.delegator ∧ checkLinks (second :: rest) = .ok () := by
  rw [checkLinks]
  by_cases hlink : first.delegate = second.delegator <;> simp [hlink]

/-- A hop that is not the last one takes the capability to delegate. -/
theorem checkForge_cons_eq_ok {first second : Fields} :
    checkForge held (first :: second :: rest) = .ok () ↔
      held.has capForge = true ∧ checkForge first.caps (second :: rest) = .ok () := by
  rw [checkForge]
  cases held.has capForge <;> simp

/-- On checked hops, the remaining loops accept exactly the chains that lead from the first
delegator to the leaf. -/
theorem loops_iff_presents {held caps : Caps}
    (hhops : chain.mapM (checkHop crypto sessionID now) = .ok (first :: rest)) :
    (checkLinks (first :: rest) = .ok () ∧
      ((first :: rest).getLast (List.cons_ne_nil _ _)).delegate = leafPub ∧
      attenuate held (first :: rest) = .ok caps ∧ checkForge held (first :: rest) = .ok ()) ↔
    (delegationSystem crypto sessionID snap now).Presents first.delegator held chain leafPub caps := by
  induction chain generalizing first rest held with
  | nil => cases hhops
  | cons delegation chain ih =>
    obtain ⟨_, others, hfirst, hothers, hcons⟩ := mapM_cons_eq_ok.mp hhops
    obtain ⟨rfl, rfl⟩ := List.cons.inj hcons
    have hlive := checkHop_eq_ok.mp hfirst
    cases chain with
    | nil =>
      obtain rfl := Except.ok.inj hothers
      rw [DelegationSystem.presents_singleton, grants_iff hlive, attenuate_cons_eq_ok]
      constructor
      · rintro ⟨_, hleaf, ⟨hbelow, hcaps⟩, _⟩
        obtain rfl := Except.ok.inj hcaps
        exact ⟨⟨rfl, hleaf, rfl⟩, hbelow⟩
      · rintro ⟨⟨_, hleaf, rfl⟩, hbelow⟩
        exact ⟨rfl, hleaf, ⟨hbelow, rfl⟩, rfl⟩
    | cons next chain =>
      obtain ⟨second, remaining, hsecond, _, rfl⟩ := mapM_cons_eq_ok.mp hothers
      have hliveSecond := checkHop_eq_ok.mp hsecond
      have htail : _ ↔ (delegationSystem crypto sessionID snap now).Presents second.delegator
          first.caps (next :: chain) leafPub caps := ih hothers
      rw [DelegationSystem.presents_cons_cons, checkLinks_cons_eq_ok, attenuate_cons_eq_ok,
        checkForge_cons_eq_ok, List.getLast_cons_cons]
      constructor
      · rintro ⟨⟨hlink, hlinks⟩, hleaf, ⟨hbelow, hcaps⟩, hforge, hforges⟩
        have hpresents := htail.mp ⟨hlinks, hleaf, hcaps, hforges⟩
        rw [← hlink] at hpresents
        exact ⟨hforge, _, _, (grants_iff hlive).mpr ⟨rfl, rfl, rfl⟩, hbelow, hpresents⟩
      · rintro ⟨hforge, _, _, hgrants, hbelow, hpresents⟩
        obtain ⟨_, rfl, rfl⟩ := (grants_iff hlive).mp hgrants
        have hlink := start_eq_delegator hliveSecond hpresents
        rw [← hlink] at hpresents
        obtain ⟨hlinks, hleaf, hcaps, hforges⟩ := htail.mpr hpresents
        exact ⟨⟨hlink.symm, hlinks⟩, hleaf, ⟨hbelow, hcaps⟩, hforge, hforges⟩

/-- When the loops over the fields succeed. -/
theorem foldFields_eq_ok :
    foldFields leafPub snap first rest = .ok (caps, rootIsOwner) ↔
      ((first :: rest).getLast (List.cons_ne_nil _ _)).delegate = leafPub ∧ ∃ held,
        rootCaps snap first.delegator = .ok (held, rootIsOwner) ∧
        attenuate held (first :: rest) = .ok caps ∧ checkForge held (first :: rest) = .ok () := by
  unfold foldFields
  by_cases hleaf : ((first :: rest).getLast (List.cons_ne_nil _ _)).delegate = leafPub
  · rw [if_neg (not_not.mpr hleaf), bind_eq_ok]
    constructor
    · rintro ⟨⟨held, isOwner⟩, hroot, hrest⟩
      obtain ⟨effective, hcaps, hlast⟩ := bind_eq_ok.mp hrest
      obtain ⟨_, hforge, hresult⟩ := bind_eq_ok.mp hlast
      obtain ⟨rfl, rfl⟩ := Prod.mk.inj (Except.ok.inj hresult)
      exact ⟨hleaf, held, hroot, hcaps, hforge⟩
    · rintro ⟨_, held, hroot, hcaps, hforge⟩
      exact ⟨(held, rootIsOwner), hroot,
        bind_eq_ok.mpr ⟨caps, hcaps, bind_eq_ok.mpr ⟨(), hforge, rfl⟩⟩⟩
  · rw [if_pos hleaf]
    constructor
    · intro herror
      cases herror
    · rintro ⟨hleaf', _⟩
      exact absurd hleaf' hleaf

/-- A chain folds if and only if it authorizes its leaf. -/
theorem foldChain_eq_ok :
    foldChain crypto chain leafPub sessionID snap now = .ok (caps, rootIsOwner) ↔
      Authorized crypto chain leafPub sessionID snap now caps rootIsOwner := by
  unfold foldChain
  by_cases hempty : chain.length = 0
  · rw [if_pos hempty]
    constructor
    · intro herror
      cases herror
    · rintro ⟨hpos, _⟩
      omega
  by_cases hlong : maxChainDepth < chain.length
  · rw [if_neg hempty, if_pos hlong]
    constructor
    · intro herror
      cases herror
    · rintro ⟨_, hdepth, _⟩
      omega
  rw [if_neg hempty, if_neg hlong, bind_eq_ok]
  constructor
  · rintro ⟨fields, hhops, hrest⟩
    obtain ⟨_, hlinks, hfold⟩ := bind_eq_ok.mp hrest
    cases fields with
    | nil => cases hfold
    | cons first rest =>
      obtain ⟨hleaf, held, hroot, hcaps, hforge⟩ := foldFields_eq_ok.mp hfold
      have hheld := rootCaps_eq_ok.mp hroot
      have hpresents : (delegationSystem crypto sessionID snap now).Presents first.delegator held
          chain leafPub caps := (loops_iff_presents hhops).mp ⟨hlinks, hleaf, hcaps, hforge⟩
      exact ⟨by omega, by omega, first.delegator, held, hheld.1, hpresents, hheld.2⟩
  · rintro ⟨_, _, root, held, hroot, hpresents, howner⟩
    have hlive : ∀ delegation ∈ chain, ∃ fields,
        checkHop crypto sessionID now delegation = .ok fields := by
      intro delegation hmem
      obtain ⟨_, _, _, ⟨fields, hfields, _⟩, _⟩ := hpresents.below.2 delegation hmem
      exact ⟨fields, checkHop_eq_ok.mpr hfields⟩
    obtain ⟨fields, hhops⟩ := exists_mapM_eq_ok hlive
    cases chain with
    | nil => exact absurd rfl hempty
    | cons delegation chain =>
      obtain ⟨first, rest, hfirst, _, rfl⟩ := mapM_cons_eq_ok.mp hhops
      obtain rfl := start_eq_delegator (checkHop_eq_ok.mp hfirst) hpresents
      obtain ⟨hlinks, hleaf, hcaps, hforge⟩ := (loops_iff_presents hhops).mpr hpresents
      have hfold := foldFields_eq_ok.mpr
        ⟨hleaf, held, rootCaps_eq_ok.mpr ⟨hroot, howner⟩, hcaps, hforge⟩
      exact ⟨first :: rest, hhops, bind_eq_ok.mpr ⟨(), hlinks, hfold⟩⟩

theorem fold_eq_none :
    fold crypto chain leafPub sessionID snap now = (caps, rootIsOwner, none) ↔
      foldChain crypto chain leafPub sessionID snap now = .ok (caps, rootIsOwner) := by
  unfold fold
  cases foldChain crypto chain leafPub sessionID snap now with
  | ok result => simp [Prod.ext_iff]
  | error err => simp

theorem fold_eq_some
    (hfold : fold crypto chain leafPub sessionID snap now = (caps, rootIsOwner, some err)) :
    foldChain crypto chain leafPub sessionID snap now = .error err := by
  unfold fold at hfold
  cases hchain : foldChain crypto chain leafPub sessionID snap now with
  | ok result => simp [hchain] at hfold
  | error err' =>
    simp only [hchain, Prod.mk.injEq, Option.some.injEq] at hfold
    rw [hfold.2.2]

/-- What an authorized chain says of the caps it ends with. -/
structure Bounded (crypto : Ed25519 Private Signature) (chain : List (Delegation Signature))
    (leafPub sessionID : PublicKey) (snap : Snapshot) (now : Time) (caps : Caps)
    (rootIsOwner : Bool) : Prop where
  last : ∃ last fields signer held, chain.getLast? = some last ∧
    last.Live crypto sessionID now fields ∧ fields.delegator = signer ∧ fields.delegate = leafPub ∧
    fields.caps = caps ∧ (delegationSystem crypto sessionID snap now).Holds signer held ∧
    caps.subset held = true
  hops : ∀ delegation ∈ chain, ∃ fields, delegation.Live crypto sessionID now fields ∧
    caps.subset fields.caps = true
  root : ∃ first fields held, chain.head? = some first ∧ first.Live crypto sessionID now fields ∧
    RootHolds snap fields.delegator held ∧ caps.subset held = true ∧
    (∀ delegation ∈ chain, ∃ hop, delegation.Live crypto sessionID now hop ∧
      hop.caps.subset held = true) ∧
    (rootIsOwner = true ↔ fields.delegator = snap.owner)

theorem Authorized.bounded
    (hauthorized : Authorized crypto chain leafPub sessionID snap now caps rootIsOwner) :
    Bounded crypto chain leafPub sessionID snap now caps rootIsOwner := by
  obtain ⟨hpos, _, root, held, hroot, hpresents, howner⟩ := hauthorized
  have hbelow := hpresents.below
  refine ⟨?_, ?_, ?_⟩
  · obtain ⟨front, last, signer, right, rfl, hreaches, ⟨fields, hlive, rfl, rfl, rfl⟩, hlast⟩ := hpresents
    exact ⟨last, fields, fields.delegator, right, by simp, hlive, rfl, rfl, rfl,
      hreaches.holds hroot, hlast⟩
  · intro delegation hmem
    obtain ⟨_, _, _, ⟨fields, hlive, _, _, rfl⟩, hsubset, _⟩ := hbelow.2 delegation hmem
    exact ⟨fields, hlive, hsubset⟩
  · cases chain with
    | nil => cases hpos
    | cons first rest =>
      obtain ⟨_, _, _, ⟨fields, hlive, _⟩, _⟩ := hbelow.2 first List.mem_cons_self
      obtain rfl := start_eq_delegator hlive hpresents
      refine ⟨first, fields, held, rfl, hlive, hroot, hbelow.1, ?_, howner⟩
      intro delegation hmem
      obtain ⟨_, _, _, ⟨hop, hhop, _, _, rfl⟩, _, hsubset⟩ := hbelow.2 delegation hmem
      exact ⟨hop, hhop, hsubset⟩

/-- The fold succeeds exactly on authorized chains, with the caps of the last hop, which are below
those of every hop and of the root; on every other chain it returns an error and no caps. -/
theorem fold_iff_authorized (crypto : Ed25519 Private Signature) (chain : List (Delegation Signature))
    (leafPub sessionID : PublicKey) (snap : Snapshot) (now : Time) :
    (∀ caps rootIsOwner, fold crypto chain leafPub sessionID snap now = (caps, rootIsOwner, none) ↔
      Authorized crypto chain leafPub sessionID snap now caps rootIsOwner) ∧
    (∀ caps rootIsOwner, fold crypto chain leafPub sessionID snap now = (caps, rootIsOwner, none) →
      Bounded crypto chain leafPub sessionID snap now caps rootIsOwner) ∧
    ((¬ ∃ caps rootIsOwner, Authorized crypto chain leafPub sessionID snap now caps rootIsOwner) →
      ∃ err, fold crypto chain leafPub sessionID snap now = (0, false, some err)) := by
  have hiff : ∀ caps rootIsOwner,
      fold crypto chain leafPub sessionID snap now = (caps, rootIsOwner, none) ↔
        Authorized crypto chain leafPub sessionID snap now caps rootIsOwner :=
    fun caps rootIsOwner ↦ fold_eq_none.trans foldChain_eq_ok
  refine ⟨hiff, ?_, ?_⟩
  · intro caps rootIsOwner hfold
    exact ((hiff caps rootIsOwner).mp hfold).bounded
  · intro hnone
    cases hfold : foldChain crypto chain leafPub sessionID snap now with
    | ok result => exact absurd ⟨result.1, result.2, foldChain_eq_ok.mp hfold⟩ hnone
    | error err => exact ⟨err, by rw [fold, hfold]⟩

/-- The checks that come before the root's: every hop is signed, scoped and valid, each delegates to
the next one's delegator, and the last delegates to the leaf. -/
structure ChainChecked (crypto : Ed25519 Private Signature) (chain : List (Delegation Signature))
    (leafPub sessionID : PublicKey) (now : Time) (root : PublicKey) : Prop where
  positive : 1 ≤ chain.length
  bounded : chain.length ≤ maxChainDepth
  hops : ∃ fields, List.Forall₂ (Delegation.Live crypto sessionID now) chain fields ∧
    fields.IsChain (fun hop next ↦ hop.delegate = next.delegator) ∧
    fields.getLast?.map Fields.delegate = some leafPub ∧
    fields.head?.map Fields.delegator = some root

theorem isChain_of_checkLinks (hlinks : checkLinks fields = .ok ()) :
    fields.IsChain (fun hop next ↦ hop.delegate = next.delegator) := by
  induction fields with
  | nil => exact .nil
  | cons first rest ih =>
    cases rest with
    | nil => exact .singleton first
    | cons second rest =>
      obtain ⟨hlink, hrest⟩ := checkLinks_cons_eq_ok.mp hlinks
      exact List.isChain_cons_cons.mpr ⟨hlink, ih hrest⟩

/-- No error of a hop is that of an unknown root. -/
theorem checkHop_error (hcheck : checkHop crypto sessionID now delegation = .error err) :
    err ≠ .unknownRoot := by
  unfold checkHop at hcheck
  split at hcheck
  · next hverify =>
    rw [Except.error.inj hcheck] at hverify
    rintro rfl
    rcases Delegation.verify_error hverify with hmalformed | hkey | hsignature
    · cases hmalformed
    · cases hkey
    · cases hsignature
  · split_ifs at hcheck
    all_goals
      rw [← Except.error.inj hcheck]
      simp

theorem checkLinks_error (hlinks : checkLinks fields = .error err) : err = .brokenLink := by
  induction fields with
  | nil => cases hlinks
  | cons first rest ih =>
    cases rest with
    | nil => cases hlinks
    | cons second rest =>
      rw [checkLinks] at hlinks
      split_ifs at hlinks
      · exact (Except.error.inj hlinks).symm
      · exact ih hlinks

theorem attenuate_error (hcaps : attenuate held fields = .error err) : err = .attenuation := by
  induction fields generalizing held with
  | nil => cases hcaps
  | cons first rest ih =>
    rw [attenuate] at hcaps
    split_ifs at hcaps
    · exact (Except.error.inj hcaps).symm
    · exact ih hcaps

theorem checkForge_error (hforge : checkForge held fields = .error err) : err = .forgeRequired := by
  induction fields generalizing held with
  | nil => cases hforge
  | cons first rest ih =>
    cases rest with
    | nil => cases hforge
    | cons second rest =>
      rw [checkForge] at hforge
      split_ifs at hforge
      · exact (Except.error.inj hforge).symm
      · exact ih hforge

theorem rootCaps_error {root : PublicKey} (hroot : rootCaps snap root = .error err) :
    root ≠ snap.owner ∧ snap.grantCaps root = none := by
  unfold rootCaps at hroot
  split_ifs at hroot with howner
  split at hroot
  · cases hroot
  · next hgrant => exact ⟨howner, hgrant⟩

/-- The root is unknown only if it is neither the owner nor granted anything. -/
theorem foldFields_unknownRoot (hfold : foldFields leafPub snap first rest = .error .unknownRoot) :
    ((first :: rest).getLast (List.cons_ne_nil _ _)).delegate = leafPub ∧
      first.delegator ≠ snap.owner ∧ snap.grantCaps first.delegator = none := by
  unfold foldFields at hfold
  split_ifs at hfold with hleaf
  · cases hfold
  rcases bind_eq_error.mp hfold with hroot | ⟨held, _, hrest⟩
  · exact ⟨not_not.mp hleaf, rootCaps_error hroot⟩
  rcases bind_eq_error.mp hrest with hcaps | ⟨effective, _, hlast⟩
  · cases attenuate_error hcaps
  rcases bind_eq_error.mp hlast with hforge | ⟨_, _, hresult⟩
  · cases checkForge_error hforge
  · cases hresult

/-- The fold reports an unknown root only for a chain that passed every check before the root's. -/
theorem foldChain_unknownRoot
    (hfold : foldChain crypto chain leafPub sessionID snap now = .error .unknownRoot) :
    ∃ root, ChainChecked crypto chain leafPub sessionID now root ∧ root ≠ snap.owner ∧
      snap.grantCaps root = none := by
  unfold foldChain at hfold
  split_ifs at hfold with hempty hlong
  · cases hfold
  · cases hfold
  rcases bind_eq_error.mp hfold with hhops | ⟨fields, hhops, hrest⟩
  · obtain ⟨delegation, _, hcheck⟩ := exists_of_mapM_eq_error hhops
    exact absurd rfl (checkHop_error hcheck)
  rcases bind_eq_error.mp hrest with hlinks | ⟨_, hlinks, hlast⟩
  · cases checkLinks_error hlinks
  cases fields with
  | nil => cases hlast
  | cons first rest =>
    obtain ⟨hleaf, hroot⟩ := foldFields_unknownRoot hlast
    have hlive := (forall₂_of_mapM_eq_ok hhops).imp fun _ _ hcheck ↦ checkHop_eq_ok.mp hcheck
    refine ⟨first.delegator, ⟨by omega, by omega, first :: rest, hlive,
      isChain_of_checkLinks hlinks, ?_, rfl⟩, hroot⟩
    rw [List.getLast?_eq_some_getLast (List.cons_ne_nil _ _), Option.map_some, hleaf]

end Fold

end Mosey.Wallet
