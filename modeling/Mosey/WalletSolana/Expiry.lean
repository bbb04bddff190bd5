import Mosey.Auth.WalletPolicy
import Mosey.WalletSolana.Source

/-!
# Expiry of on-chain grants

Expiry is applied when a snapshot is built, and the snapshot is then served for as long as it counts
as fresh. A handshake ties three readings of the clock together: the build of the snapshot it uses,
the freshness check, and the fold. What the server guarantees about an admitted grantee is that its
grant was live when that snapshot was built, and that the snapshot was installed at most the
staleness budget before the handshake read it, or during the handshake.
-/

namespace Mosey.WalletSolana

open Library Wallet Auth

section Expiry

variable {Private Signature : Type} {crypto : Ed25519 Private Signature}

/-- The answers of the source to one handshake: `Snapshot` is read in state `read`, and if `VerifyNow`
is asked, its refresh is the one at `index`, not installed before, and it answers in state `later`. -/
structure Consulted (source : Source) (start : Time) (genesis : List Account) (env : ResolveEnv)
    (read later : SourceRun) (index : ℕ) : Prop where
  reachable : (SourceRun.machine source start genesis).Reachable read
  run : ∃ actions, (SourceRun.machine source start genesis).Legal read actions ∧
    (SourceRun.machine source start genesis).run read actions = later
  snapshot : env.snapshot = read.snapshot source
  folded : read.now ≤ env.foldAt
  unstarted : ∀ slot lastOK, read.refreshes[index]? ≠ some (.installed slot lastOK)
  verified : ∀ wallet caps, env.verifyNow wallet = .ok (caps, true) →
    later.verifyNow index wallet = some (.ok (caps, true))
  refolded : later.now ≤ env.refoldAt

/-- The installed snapshot shows a grant to the wallet that is on the chain at the snapshot's slot and
was live when the snapshot was built. -/
structure GrantShown (source : Source) (state : SourceRun) (cached : Cached) (wallet : PublicKey)
    (grant : Grant) : Prop where
  installed : state.cache = some cached
  shown : cached.snap.grantCaps wallet = some grant.caps
  onChain : ∃ accounts, state.chain[cached.slot]? = some accounts ∧
    GrantedIn source.sessionKey accounts grant
  grantee : grant.grantee = wallet
  unexpired : grant.expiry = 0 ∨ cached.builtAt.unix < grant.expiry
  built : cached.builtAt ≤ cached.lastOK

variable {source : Source} {start : Time} {genesis : List Account}
variable {state read later : SourceRun} {cached : Cached} {wallet : PublicKey} {caps : Caps}

/-- The capabilities in the cache are shown by a grant on the chain. -/
theorem grantShown_of_cached (hinvariant : SourceInvariant source state)
    (hcache : state.cache = some cached) (hcaps : cached.snap.grantCaps wallet = some caps) :
    ∃ grant, GrantShown source state cached wallet grant := by
  have hcached := hinvariant.cached cached hcache
  obtain ⟨accounts, grant, hslot, hgranted, hgrantee, rfl, hunexpired⟩ := hcached.granted hcaps
  exact ⟨grant, hcache, hcaps, ⟨accounts, hslot, hgranted⟩, hgrantee, hunexpired, hcached.built⟩

/-- A grant is confirmed only by a refresh that was installed. -/
theorem verifyNow_eq_ok {index : ℕ}
    (hverify : state.verifyNow index wallet = some (.ok (caps, true))) :
    ∃ slot lastOK cached, state.refreshes[index]? = some (.installed slot lastOK) ∧
      state.cache = some cached ∧ cached.snap.grantCaps wallet = some caps := by
  unfold SourceRun.verifyNow at hverify
  split at hverify
  · cases hverify
  · next slot lastOK cached hrefresh hcache =>
    split at hverify
    · next found hfound =>
      obtain ⟨rfl, _⟩ := Prod.mk.inj (Except.ok.inj (Option.some.inj hverify))
      exact ⟨slot, lastOK, cached, hrefresh, hcache, hfound⟩
    · cases hverify
  · cases hverify

/-- A snapshot that `VerifyNow` looked into was installed after the handshake read the cached one. -/
theorem Consulted.lastOK_le {env : ResolveEnv} {index : ℕ} {slot : ℕ} {lastOK : Time}
    (hconsulted : Consulted source start genesis env read later index)
    (hinstalled : later.refreshes[index]? = some (.installed slot lastOK))
    (hcache : later.cache = some cached) :
    read.now ≤ cached.lastOK ∧ cached.lastOK ≤ later.now := by
  obtain ⟨actions, hlegal, rfl⟩ := hconsulted.run
  have hfollows := follows_run hconsulted.reachable hlegal
  have hinvariant := sourceInvariant (hconsulted.reachable.run hlegal)
  have hnew : read.now ≤ lastOK :=
    (hfollows.installed index slot lastOK hinstalled).resolve_left (hconsulted.unstarted slot lastOK)
  obtain ⟨cached', hcache', hle⟩ := hinvariant.refreshes _ (List.mem_of_getElem? hinstalled)
  obtain rfl : cached = cached' := Option.some.inj (hcache.symm.trans hcache')
  exact ⟨hnew.trans hle, (hinvariant.cached cached hcache).past⟩

/-- A chain admitted for a wallet that is not the owner rests on a grant that was live when the
snapshot used was built; that snapshot was fresh when it was read, or installed since. -/
theorem admitted_grant_live_at_build {limited : Bool} {sessionID connPub : PublicKey}
    {env : ResolveEnv} {chain : List (Delegation Signature)} {identity : Identity}
    {calls : List PublicKey} {index : ℕ}
    (hconsulted : Consulted source start genesis env read later index)
    (hresolved : resolveIdentity crypto limited sessionID env chain connPub = (.ok identity, calls)) :
    ∃ snap root, env.snapshot = .ok (snap, true) ∧ chainRoot chain = .ok root ∧
      (root = snap.owner ∨ ∃ cached grant,
        GrantShown source read cached root grant ∧
            read.now - cached.lastOK ≤ source.maxStaleness ∧ read.now ≤ env.foldAt ∨
          GrantShown source later cached root grant ∧ read.now ≤ cached.lastOK ∧
            cached.lastOK ≤ env.refoldAt) := by
  obtain ⟨snap, root, caps, isOwner, hfresh, hroot, _, hcases⟩ := resolveIdentity_eq_ok hresolved
  refine ⟨snap, root, hfresh, hroot, ?_⟩
  rcases hcases with ⟨_, hfold⟩ | ⟨asked, _, _, _, hverify, _⟩
  · obtain ⟨held, hfolded⟩ := folded_of_fold hroot hfold
    rcases hfolded.holds with ⟨howner, _⟩ | ⟨_, hgrant⟩
    · exact .inl howner
    · have hsnapshot := hconsulted.snapshot.symm.trans hfresh
      obtain ⟨cached, hcache, rfl, hbudget⟩ := SourceRun.snapshot_eq_ok hsnapshot
      have hinvariant := sourceInvariant hconsulted.reachable
      obtain ⟨grant, hshown⟩ := grantShown_of_cached hinvariant hcache hgrant
      exact .inr ⟨cached, grant, .inl ⟨hshown, of_decide_eq_true hbudget, hconsulted.folded⟩⟩
  · have hanswer := hconsulted.verified root asked hverify
    obtain ⟨slot, lastOK, cached, hinstalled, hcache, hcaps⟩ := verifyNow_eq_ok hanswer
    have htimes := hconsulted.lastOK_le hinstalled hcache
    obtain ⟨actions, hlegal, rfl⟩ := hconsulted.run
    have hinvariant := sourceInvariant (hconsulted.reachable.run hlegal)
    obtain ⟨grant, hshown⟩ := grantShown_of_cached hinvariant hcache hcaps
    exact .inr ⟨cached, grant, .inr ⟨hshown, htimes.1, htimes.2.trans hconsulted.refolded⟩⟩

end Expiry

section Example

/-- A refresh at fifty-five seconds, and a handshake at seventy. -/
def staleRun : List SourceAction :=
  [.call (.ok ()), .build 0 exampleAccounts exampleAccounts, .install 0, .tick (70 * nanosPerSecond)]

def staleCached : Cached where
  snap := buildSnapshot exampleFetched.session exampleFetched.grants (55 * nanosPerSecond)
  lastOK := 55 * nanosPerSecond
  subAddrs := exampleFetched.targets
  slot := 0
  fetched := exampleFetched
  builtAt := 55 * nanosPerSecond

def staleState : SourceRun :=
  ⟨70 * nanosPerSecond, [exampleAccounts], [.installed 0 (55 * nanosPerSecond)], some staleCached⟩

def staleEnv : ResolveEnv where
  snapshot := .ok (staleCached.snap, true)
  foldAt := 70 * nanosPerSecond
  allow := true
  verifyNow _ := .error "timeout"
  refoldAt := 70 * nanosPerSecond

theorem staleState_reachable : (SourceRun.machine exampleSolana (55 * nanosPerSecond)
    exampleAccounts).Reachable staleState := by
  have hrun : (SourceRun.machine exampleSolana (55 * nanosPerSecond) exampleAccounts).run
      (SourceRun.machine exampleSolana (55 * nanosPerSecond) exampleAccounts).init staleRun =
        staleState := SourceRun.run_refresh_tick readAccounts_example (70 * nanosPerSecond)
  rw [← hrun]
  apply Machine.Reachable.init.run
  exact SourceRun.legal_refresh_tick readAccounts_example (by decide)

theorem staleEnv_consulted : Consulted exampleSolana (55 * nanosPerSecond) exampleAccounts staleEnv
    staleState staleState 1 where
  reachable := staleState_reachable
  run := ⟨[], trivial, rfl⟩
  snapshot := by
    have hfresh : decide (staleState.now - staleCached.lastOK ≤ exampleSolana.maxStaleness) = true := by
      decide
    rw [SourceRun.snapshot, staleState]
    exact congrArg (fun fresh ↦ Except.ok (staleCached.snap, fresh)) hfresh.symm
  folded := le_refl _
  unstarted := by simp [staleState]
  verified := by simp [staleEnv]
  refolded := le_refl _

theorem resolveIdentity_staleEnv : resolveIdentity freeEd25519.toEd25519 true (freeKey 2).1 staleEnv
    [exampleDelegation 4 3 capWrite] (freeKey 3).1 =
      (.ok ⟨address (freeKey 4).1, false, true, false⟩, []) := by
  decide +kernel

/-- The grant of key 4 expires at sixty seconds. The snapshot built at fifty-five still shows it to
the handshake at seventy, which admits a chain rooted at key 4. -/
theorem expired_grant_admitted : ∃ env state cached grant identity,
    Consulted exampleSolana (55 * nanosPerSecond) exampleAccounts env state state 1 ∧
      resolveIdentity freeEd25519.toEd25519 true (freeKey 2).1 env [exampleDelegation 4 3 capWrite]
        (freeKey 3).1 = (.ok identity, []) ∧
      chainRoot [exampleDelegation 4 3 capWrite] = .ok (freeKey 4).1 ∧
      env.snapshot = .ok (cached.snap, true) ∧ (freeKey 4).1 ≠ cached.snap.owner ∧
      GrantShown exampleSolana state cached (freeKey 4).1 grant ∧
      grant.expiry ≠ 0 ∧ grant.expiry < env.foldAt.unix := by
  have hgranted : GrantedIn exampleSolana.sessionKey exampleAccounts exampleGrant :=
    grantedIn_of_readAccounts (List.Perm.refl _) (List.Perm.refl _) readAccounts_example
      (List.mem_singleton_self _) rfl
  have hshown : GrantShown exampleSolana staleState staleCached (freeKey 4).1 exampleGrant :=
    ⟨rfl, by decide +kernel, ⟨exampleAccounts, rfl, hgranted⟩, rfl, .inr (by decide), le_refl _⟩
  exact ⟨staleEnv, staleState, staleCached, exampleGrant, _, staleEnv_consulted,
    resolveIdentity_staleEnv, by decide +kernel, rfl, by decide, hshown, by decide, by decide⟩

theorem admitted_grant_live_at_build_stale : ∃ snap root, staleEnv.snapshot = .ok (snap, true) ∧
    chainRoot [exampleDelegation 4 3 capWrite] = .ok root ∧
      (root = snap.owner ∨ ∃ cached grant,
        GrantShown exampleSolana staleState cached root grant ∧
            staleState.now - cached.lastOK ≤ exampleSolana.maxStaleness ∧
            staleState.now ≤ staleEnv.foldAt ∨
          GrantShown exampleSolana staleState cached root grant ∧ staleState.now ≤ cached.lastOK ∧
            cached.lastOK ≤ staleEnv.refoldAt) :=
  admitted_grant_live_at_build staleEnv_consulted resolveIdentity_staleEnv

end Example

end Mosey.WalletSolana
