import Mosey.Auth.Wallet

/-!
# The wallet admission policy

What `ServerHandshake` does once the client has proved its connection key, for every behaviour of
the snapshot source, the limiter and the clock. An identity needs a fresh cached snapshot. The
source is consulted at most once, and only for a chain whose root alone is in doubt; the overlay that
follows names one more grantee and no other owner, so it cannot confer ownership.
-/

namespace Mosey.Auth

open Library Wallet

section Policy

variable {Private Signature : Type} {crypto : Ed25519 Private Signature}
variable {sessionID connPub : PublicKey} {env : ResolveEnv} {chain : List (Delegation Signature)}

/-- Every hop of the chain verifies to caps that satisfy `P`. -/
def EveryHop (crypto : Ed25519 Private Signature) (chain : List (Delegation Signature))
    (P : Caps → Prop) : Prop :=
  ∀ delegation ∈ chain, ∃ fields, delegation.verify crypto = .ok fields ∧ P fields.caps

/-- A successful fold, read at the root `chainRoot` names. -/
structure Folded (crypto : Ed25519 Private Signature) (chain : List (Delegation Signature))
    (snap : Snapshot) (root : PublicKey) (held caps : Caps) (rootIsOwner : Bool) : Prop where
  holds : RootHolds snap root held
  owner : rootIsOwner = true ↔ root = snap.owner
  below : caps.subset held = true
  lower : EveryHop crypto chain fun hop ↦ caps.subset hop = true
  upper : EveryHop crypto chain fun hop ↦ hop.subset held = true
  leaf : ∃ delegation, chain.getLast? = some delegation ∧
    ∃ fields, delegation.verify crypto = .ok fields ∧ fields.caps = caps

theorem chainRoot_of_head {first : Delegation Signature} {fields : Fields}
    (hhead : chain.head? = some first) (hverify : first.verify crypto = .ok fields) :
    chainRoot chain = .ok fields.delegator := by
  cases chain with
  | nil => cases hhead
  | cons delegation rest =>
    obtain rfl : delegation = first := Option.some.inj hhead
    rw [chainRoot, Delegation.fields_of_verify hverify]

theorem folded_of_fold {snap : Snapshot} {now : Time} {root : PublicKey} {caps : Caps}
    {rootIsOwner : Bool} (hroot : chainRoot chain = .ok root)
    (hfold : fold crypto chain connPub sessionID snap now = (caps, rootIsOwner, none)) :
    ∃ held, Folded crypto chain snap root held caps rootIsOwner := by
  have hbounded := (foldChain_eq_ok.mp (fold_eq_none.mp hfold)).bounded
  obtain ⟨first, fields, held, hhead, hlive, hholds, hbelow, hupper, howner⟩ := hbounded.root
  have hsame := (chainRoot_of_head hhead hlive.verified).symm.trans hroot
  obtain rfl := Except.ok.inj hsame
  refine ⟨held, hholds, howner, hbelow, ?_, ?_, ?_⟩
  · intro delegation hmem
    obtain ⟨hop, hhop, hsubset⟩ := hbounded.hops delegation hmem
    exact ⟨hop, hhop.verified, hsubset⟩
  · intro delegation hmem
    obtain ⟨hop, hhop, hsubset⟩ := hupper delegation hmem
    exact ⟨hop, hhop.verified, hsubset⟩
  · obtain ⟨last, lastFields, _, _, hlast, hlastLive, _, _, hcaps, _⟩ := hbounded.last
    exact ⟨last, hlast, lastFields, hlastLive.verified, hcaps⟩

variable {snap : Snapshot} {root : PublicKey} {held caps : Caps} {rootIsOwner : Bool}

/-- The caps of the fold have a flag exactly when the root and every hop have it. -/
theorem Folded.has_iff (hfolded : Folded crypto chain snap root held caps rootIsOwner)
    (flag : Caps) :
    caps.has flag = true ↔
      held.has flag = true ∧ EveryHop crypto chain fun hop ↦ hop.has flag = true := by
  constructor
  · intro hhas
    refine ⟨Caps.has_of_subset hfolded.below hhas, ?_⟩
    intro delegation hmem
    obtain ⟨fields, hverify, hsubset⟩ := hfolded.lower delegation hmem
    exact ⟨fields, hverify, Caps.has_of_subset hsubset hhas⟩
  · rintro ⟨_, hevery⟩
    obtain ⟨delegation, hleaf, fields, hverify, rfl⟩ := hfolded.leaf
    obtain ⟨fields', hverify', hhas⟩ := hevery delegation (List.mem_of_getLast? hleaf)
    have hsame := hverify.symm.trans hverify'
    rw [Except.ok.inj hsame]
    exact hhas

/-- The fold yields every cap to an owner's chain exactly when every hop carries all of them. -/
theorem Folded.owner_iff (hfolded : Folded crypto chain snap root held caps rootIsOwner) :
    (rootIsOwner && decide (caps = allCaps)) = true ↔
      root = snap.owner ∧ EveryHop crypto chain fun hop ↦ hop = allCaps := by
  rw [Bool.and_eq_true, decide_eq_true_eq, hfolded.owner]
  constructor
  · rintro ⟨howner, rfl⟩
    refine ⟨howner, ?_⟩
    intro delegation hmem
    obtain ⟨fields, hverify, hlower⟩ := hfolded.lower delegation hmem
    obtain ⟨fields', hverify', hupper⟩ := hfolded.upper delegation hmem
    have hsame := Except.ok.inj (hverify.symm.trans hverify')
    rw [← hsame] at hupper
    rcases hfolded.holds with ⟨_, rfl⟩ | ⟨hne, _⟩
    · exact ⟨fields, hverify, Caps.subset_antisymm hupper hlower⟩
    · exact absurd howner hne
  · rintro ⟨howner, hevery⟩
    refine ⟨howner, ?_⟩
    obtain ⟨delegation, hleaf, fields, hverify, rfl⟩ := hfolded.leaf
    obtain ⟨fields', hverify', hall⟩ := hevery delegation (List.mem_of_getLast? hleaf)
    rw [Except.ok.inj (hverify.symm.trans hverify')]
    exact hall

/-- Where the caps of the chain's root come from, with the wallets the source was asked about: the
cached snapshot, or the source itself once the snapshot did not know the root. -/
inductive RootFound (env : ResolveEnv) (snap : Snapshot) (root : PublicKey) :
    List PublicKey → Caps → Prop
  | cached {held : Caps} (hholds : RootHolds snap root held) : RootFound env snap root [] held
  | asked {held : Caps} (howner : root ≠ snap.owner) (hgrant : snap.grantCaps root = none)
      (hverify : env.verifyNow root = .ok (held, true)) : RootFound env snap root [root] held

/-- What an identity handed out by the server says about the chain. -/
structure Admitted (crypto : Ed25519 Private Signature) (env : ResolveEnv)
    (chain : List (Delegation Signature)) (calls : List PublicKey) (identity : Identity)
    (snap : Snapshot) (root : PublicKey) (held caps : Caps) : Prop where
  fresh : env.snapshot = .ok (snap, true)
  rooted : chainRoot chain = .ok root
  found : RootFound env snap root calls held
  below : caps.subset held = true
  leaf : ∃ delegation, chain.getLast? = some delegation ∧
    ∃ fields, delegation.verify crypto = .ok fields ∧ fields.caps = caps
  label : identity.label = address root
  owner : identity.caps.owner = true ↔
    root = snap.owner ∧ EveryHop crypto chain fun hop ↦ hop = allCaps
  write : identity.caps.write = true ↔ held.has capWrite = true ∧
    EveryHop crypto chain fun hop ↦ hop.has capWrite = true
  resize : identity.caps.resize = true ↔ held.has capResize = true ∧
    EveryHop crypto chain fun hop ↦ hop.has capResize = true
  asked_not_owner : calls ≠ [] → identity.caps.owner = false

variable {calls : List PublicKey} {limited : Bool}

theorem admitted_of_folded {base : Snapshot} (hfresh : env.snapshot = .ok (snap, true))
    (hroot : chainRoot chain = .ok root) (hfound : RootFound env snap root calls held)
    (hbase : base.owner = snap.owner) (hfolded : Folded crypto chain base root held caps rootIsOwner) :
    Admitted crypto env chain calls (walletIdentity caps rootIsOwner root) snap root held caps := by
  have howner := hfolded.owner_iff
  rw [hbase] at howner
  refine ⟨hfresh, hroot, hfound, hfolded.below, hfolded.leaf, rfl, howner, hfolded.has_iff capWrite,
    hfolded.has_iff capResize, ?_⟩
  intro hcalls
  cases hfound with
  | cached _ => exact absurd rfl hcalls
  | asked hne _ _ =>
    apply Bool.eq_false_iff.mpr
    intro hadmin
    exact hne (howner.mp hadmin).1

/-- Laying a grant over the snapshot names no other owner. -/
theorem admitted_of_overlay {asked : Caps} (hfresh : env.snapshot = .ok (snap, true))
    (hroot : chainRoot chain = .ok root) (howner : root ≠ snap.owner)
    (hgrant : snap.grantCaps root = none) (hverify : env.verifyNow root = .ok (asked, true))
    (hfold : fold crypto chain connPub sessionID (overlaySnapshot snap root asked) env.refoldAt =
      (caps, rootIsOwner, none)) :
    Admitted crypto env chain [root] (walletIdentity caps rootIsOwner root) snap root asked caps := by
  obtain ⟨held, hfolded⟩ := folded_of_fold hroot hfold
  have hheld : held = asked := by
    rcases hfolded.holds with ⟨hsame, _⟩ | ⟨_, hfound⟩
    · exact absurd hsame howner
    · simpa [overlaySnapshot] using hfound.symm
  rw [hheld] at hfolded
  have hbase : (overlaySnapshot snap root asked).owner = snap.owner := rfl
  exact admitted_of_folded hfresh hroot (.asked howner hgrant hverify) hbase hfolded

theorem chainRoot_of_checked {now : Time}
    (hchecked : ChainChecked crypto chain connPub sessionID now root) :
    chainRoot chain = .ok root := by
  obtain ⟨fields, hlive, _, _, hhead⟩ := hchecked.hops
  cases hlive with
  | nil => simp at hhead
  | cons hfirst _ =>
    obtain rfl := Option.some.inj hhead
    exact chainRoot_of_head rfl hfirst.verified

/-- The cases of `resolveCaps`: refused without asking the source, admitted from the cache, or asked
about the root of a chain with nothing else wrong. -/
theorem resolveCaps_cases {resolved : Resolved}
    (hresolve : resolveCaps crypto limited sessionID env chain connPub = (resolved, calls)) :
    (∃ err, resolved = .error err ∧ calls = []) ∨
      ∃ snap root, env.snapshot = .ok (snap, true) ∧ chainRoot chain = .ok root ∧
        ((∃ caps isOwner, resolved = .ok (caps, isOwner, root) ∧ calls = [] ∧
            fold crypto chain connPub sessionID snap env.foldAt = (caps, isOwner, none)) ∨
          (resolved = resolveOnMiss crypto sessionID env snap root chain connPub ∧ calls = [root] ∧
            ChainChecked crypto chain connPub sessionID env.foldAt root ∧ root ≠ snap.owner ∧
            snap.grantCaps root = none)) := by
  unfold resolveCaps at hresolve
  split at hresolve
  · cases hresolve
    exact .inl ⟨_, rfl, rfl⟩
  next root hroot =>
  split at hresolve
  · cases hresolve
    exact .inl ⟨_, rfl, rfl⟩
  · cases hresolve
    exact .inl ⟨_, rfl, rfl⟩
  next snap hsnap =>
  split at hresolve
  · next caps isOwner hfold =>
    cases hresolve
    exact .inr ⟨snap, root, hsnap, hroot, .inl ⟨caps, isOwner, rfl, rfl, hfold⟩⟩
  next ferr hfold =>
  split_ifs at hresolve with hmiss
  · cases hresolve
    have hunknown : foldChain crypto chain connPub sessionID snap env.foldAt = .error .unknownRoot := by
      rw [← hmiss.1]
      exact fold_eq_some hfold
    obtain ⟨root', hchecked, howner, hgrant⟩ := foldChain_unknownRoot hunknown
    have hsame := (chainRoot_of_checked hchecked).symm.trans hroot
    obtain rfl := Except.ok.inj hsame
    exact .inr ⟨snap, root', hsnap, hroot, .inr ⟨rfl, rfl, hchecked, howner, hgrant⟩⟩
  · cases hresolve
    exact .inl ⟨_, rfl, rfl⟩

theorem resolveOnMiss_eq_ok {resolved : Caps × Bool × PublicKey}
    (hmiss : resolveOnMiss crypto sessionID env snap root chain connPub = .ok resolved) :
    ∃ asked caps isOwner, env.verifyNow root = .ok (asked, true) ∧
      fold crypto chain connPub sessionID (overlaySnapshot snap root asked) env.refoldAt =
        (caps, isOwner, none) ∧ resolved = (caps, isOwner, root) := by
  unfold resolveOnMiss at hmiss
  split at hmiss
  · next asked hverify =>
    split at hmiss
    · next caps isOwner hfold =>
      exact ⟨asked, caps, isOwner, hverify, hfold, (Except.ok.inj hmiss).symm⟩
    · cases hmiss
  · cases hmiss

/-- How a chain is admitted: by a fold over the cached snapshot, or by one over the overlay. -/
theorem resolveIdentity_eq_ok {identity : Identity}
    (hresolved : resolveIdentity crypto limited sessionID env chain connPub = (.ok identity, calls)) :
    ∃ snap root caps isOwner, env.snapshot = .ok (snap, true) ∧ chainRoot chain = .ok root ∧
      identity = walletIdentity caps isOwner root ∧
      ((calls = [] ∧ fold crypto chain connPub sessionID snap env.foldAt = (caps, isOwner, none)) ∨
        ∃ asked, calls = [root] ∧ root ≠ snap.owner ∧ snap.grantCaps root = none ∧
          env.verifyNow root = .ok (asked, true) ∧
          fold crypto chain connPub sessionID (overlaySnapshot snap root asked) env.refoldAt =
            (caps, isOwner, none)) := by
  unfold resolveIdentity at hresolved
  cases hresolve : resolveCaps crypto limited sessionID env chain connPub with
  | mk resolved calls' =>
    rw [hresolve] at hresolved
    rcases resolveCaps_cases hresolve with ⟨err, rfl, rfl⟩ |
      ⟨snap, root, hfresh, hroot, ⟨caps, isOwner, rfl, rfl, hfold⟩ | ⟨rfl, rfl, _, howner, hgrant⟩⟩
    · cases hresolved
    · obtain ⟨hidentity, rfl⟩ := Prod.mk.inj hresolved
      exact ⟨snap, root, caps, isOwner, hfresh, hroot, (Except.ok.inj hidentity).symm,
        .inl ⟨rfl, hfold⟩⟩
    · cases hmiss : resolveOnMiss crypto sessionID env snap root chain connPub with
      | error err =>
        rw [hmiss] at hresolved
        cases hresolved
      | ok resolved =>
        obtain ⟨asked, caps, isOwner, hverify, hfold, rfl⟩ := resolveOnMiss_eq_ok hmiss
        rw [hmiss] at hresolved
        obtain ⟨hidentity, rfl⟩ := Prod.mk.inj hresolved
        exact ⟨snap, root, caps, isOwner, hfresh, hroot, (Except.ok.inj hidentity).symm,
          .inr ⟨asked, rfl, howner, hgrant, hverify, hfold⟩⟩

/-- The source is asked about the root of a chain with nothing else wrong, and about no other. -/
theorem resolveIdentity_calls {result : Except AuthError Identity}
    (hresolved : resolveIdentity crypto limited sessionID env chain connPub = (result, calls)) :
    calls = [] ∨ ∃ snap root, calls = [root] ∧ env.snapshot = .ok (snap, true) ∧
      ChainChecked crypto chain connPub sessionID env.foldAt root ∧ root ≠ snap.owner ∧
      snap.grantCaps root = none := by
  have hcalls : (resolveCaps crypto limited sessionID env chain connPub).2 = calls := by
    unfold resolveIdentity at hresolved
    split at hresolved
    all_goals
      next hresolve =>
        rw [hresolve]
        exact (Prod.mk.inj hresolved).2
  cases hresolve : resolveCaps crypto limited sessionID env chain connPub with
  | mk resolved calls' =>
    rw [hresolve] at hcalls
    rw [← hcalls]
    rcases resolveCaps_cases hresolve with ⟨_, _, hnone⟩ |
      ⟨snap, root, hfresh, _, ⟨_, _, _, hnone, _⟩ | ⟨_, hasked, hchecked⟩⟩
    · exact .inl hnone
    · exact .inl hnone
    · exact .inr ⟨snap, root, hasked, hfresh, hchecked⟩

/-- What the server does once the client's proof is valid: `result` is the handshake's and `calls`
the wallets it asked `VerifyNow` about. -/
structure AdmissionPolicy (crypto : Ed25519 Private Signature) (sessionID : PublicKey)
    (env : ResolveEnv) (chain : List (Delegation Signature)) (connPub : PublicKey)
    (result : Except AuthError Identity) (calls : List PublicKey) : Prop where
  asked_once : calls.length ≤ 1
  asked_for : ∀ root ∈ calls, ∃ snap, env.snapshot = .ok (snap, true) ∧
    ChainChecked crypto chain connPub sessionID env.foldAt root ∧ root ≠ snap.owner ∧
    snap.grantCaps root = none
  admitted : ∀ identity, result = .ok identity →
    ∃ snap root held caps, Admitted crypto env chain calls identity snap root held caps

theorem resolveIdentity_policy {result : Except AuthError Identity}
    (hresolved : resolveIdentity crypto limited sessionID env chain connPub = (result, calls)) :
    AdmissionPolicy crypto sessionID env chain connPub result calls where
  asked_once := by
    rcases resolveIdentity_calls hresolved with rfl | ⟨_, _, rfl, _⟩ <;> simp
  asked_for := by
    intro wallet hwallet
    rcases resolveIdentity_calls hresolved with rfl | ⟨snap, root, rfl, hasked⟩
    · cases hwallet
    · rw [List.mem_singleton.mp hwallet]
      exact ⟨snap, hasked⟩
  admitted := by
    rintro identity rfl
    obtain ⟨snap, root, caps, isOwner, hfresh, hroot, rfl, ⟨rfl, hfold⟩ |
      ⟨asked, rfl, howner, hgrant, hverify, hfold⟩⟩ := resolveIdentity_eq_ok hresolved
    · obtain ⟨held, hfolded⟩ := folded_of_fold hroot hfold
      exact ⟨snap, root, held, caps,
        admitted_of_folded hfresh hroot (.cached hfolded.holds) rfl hfolded⟩
    · exact ⟨snap, root, asked, caps,
        admitted_of_overlay hfresh hroot howner hgrant hverify hfold⟩

/-- After a valid client proof `ServerHandshake` returns by the admission policy, whatever the source,
the limiter and the clock answer. -/
theorem serverHandshake_follows_policy {server : WalletServer Private} {nonceC nonceS : Bytes}
    {io : WalletSegment Signature} {clientSig : Signature} (hread : io.read = .ok (.proof clientSig))
    (hproof : crypto.verify connPub (walletTranscript walletClientLabel nonceS nonceC
      (crypto.publicKey server.sessionPriv)) clientSig = true) :
    ∃ result calls, WalletRun.finishServer crypto server connPub nonceC nonceS chain io =
        (.serverVerified server connPub nonceC nonceS chain result, .none) ∧
      (result, calls) = resolveIdentity crypto server.limited (crypto.publicKey server.sessionPriv)
        io.env chain connPub ∧
      AdmissionPolicy crypto (crypto.publicKey server.sessionPriv) io.env chain connPub result
        calls := by
  refine ⟨(resolveIdentity crypto server.limited _ io.env chain connPub).1, _, ?_, rfl,
    resolveIdentity_policy rfl⟩
  simp only [WalletRun.finishServer, hread, hproof, Bool.true_eq_false, if_false]

end Policy

section Example

abbrev FreePrivate := { key : PublicKey // key.length = publicKeySize }

abbrev FreeSignature := FreeTag PublicKey Bytes

def freeNonce (byte : UInt8) : Nonce := ⟨(freeKey byte).1, (freeKey byte).2⟩

/-- The session of the examples. -/
def exampleSession : WalletServer FreePrivate := ⟨freeKey 2, true⟩

/-- The owner's snapshot, with no grant in it. -/
def exampleSnapshot : Snapshot := ⟨(freeKey 1).1, fun _ ↦ none⟩

/-- A delegation of the example session that is valid in the first hundred seconds. -/
def exampleFields (delegator delegate : UInt8) (caps : Caps) : Fields :=
  ⟨(freeKey 2).1, (freeKey delegator).1, (freeKey delegate).1, caps, 0, 100 * nanosPerSecond,
    List.replicate 16 delegate⟩

def exampleDelegation (delegator delegate : UInt8) (caps : Caps) : Delegation FreeSignature :=
  .sign freeEd25519.toEd25519 (freeKey delegator) (exampleFields delegator delegate caps)

/-- The identity of a chain that carries all of the owner's caps. -/
def exampleIdentity : Identity := ⟨address (freeKey 1).1, true, true, true⟩

/-- At ten seconds the source confirms a grant that the snapshot does not have yet. -/
def exampleEnv : ResolveEnv where
  snapshot := .ok (exampleSnapshot, true)
  foldAt := 10 * nanosPerSecond
  allow := true
  verifyNow _ := .ok (capWrite ||| capResize, true)
  refoldAt := 11 * nanosPerSecond

/-- The proof of connection key 3 in answer to the server nonce of eights. -/
def exampleProof : WalletSegment FreeSignature where
  read := .ok (.proof (freeEd25519.sign (freeKey 3)
    (walletTranscript walletClientLabel (freeNonce 8).1 (freeNonce 7).1 (freeKey 2).1)))
  rand := .error "no randomness"
  write := .ok ()
  env := exampleEnv

theorem serverHandshake_follows_policy_newGrantee : ∃ result calls,
    WalletRun.finishServer freeEd25519.toEd25519 exampleSession (freeKey 3).1 (freeNonce 7).1
        (freeNonce 8).1 [exampleDelegation 4 3 capWrite] exampleProof =
      (.serverVerified exampleSession (freeKey 3).1 (freeNonce 7).1 (freeNonce 8).1
        [exampleDelegation 4 3 capWrite] result, .none) ∧
      (result, calls) = resolveIdentity freeEd25519.toEd25519 true (freeKey 2).1 exampleEnv
        [exampleDelegation 4 3 capWrite] (freeKey 3).1 ∧
      AdmissionPolicy freeEd25519.toEd25519 (freeKey 2).1 exampleEnv
        [exampleDelegation 4 3 capWrite] (freeKey 3).1 result calls :=
  serverHandshake_follows_policy rfl (by decide)

example : resolveIdentity freeEd25519.toEd25519 true (freeKey 2).1 exampleEnv
      [exampleDelegation 4 3 capWrite] (freeKey 3).1 =
    (.ok ⟨address (freeKey 4).1, false, true, false⟩, [(freeKey 4).1]) := by
  decide +kernel

end Example

end Mosey.Auth
