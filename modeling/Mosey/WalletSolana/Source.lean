import Mosey.Library.Lists
import Mosey.Library.Machine
import Mosey.WalletSolana.Accounts

/-!
# The snapshot source over time

The chain is a growing list of account states, one for each slot. A `Refresh` samples the current
state, decodes it and builds a snapshot at one reading of the clock, and then installs the snapshot
under the lock and stamps it with a second reading. Any number of refreshes are in flight at once: the
poll loop's, those the watcher triggers and those of `VerifyNow`. `Snapshot` serves what was installed
last, and calls it fresh until it is older than the staleness budget.
-/

namespace Mosey.WalletSolana

open Library Wallet

/-- The settings of a source that its logic reads. -/
structure Source where
  programID : String
  sessionKey : PublicKey
  maxStaleness : Time

/-- The installed snapshot. The slot it was sampled at, what was fetched there and the time it was
built are kept for the statements below; the program keeps only the first three fields. -/
structure Cached where
  snap : Snapshot
  lastOK : Time
  subAddrs : List String
  slot : ℕ
  fetched : Fetched
  builtAt : Time

/-- Where one call of `Refresh` stands. -/
inductive Refresh
  | sampled (slot : ℕ) (accounts : List Account)
  | built (slot : ℕ) (fetched : Fetched) (builtAt : Time)
  | installed (slot : ℕ) (lastOK : Time)
  | failed (error : String)

structure SourceRun where
  now : Time
  chain : List (List Account)
  refreshes : List Refresh
  cache : Option Cached

inductive SourceAction
  | tick (later : Time)
  | advance (accounts : List Account)
  | call (outcome : Except String Unit)
  | build (index : ℕ) (sessionOrder grantOrder : List Account)
  | install (index : ℕ)

namespace SourceRun

variable (source : Source)

/-- The RPC of a new `Refresh` answers. -/
def call (state : SourceRun) : Except String Unit → SourceRun
  | .error err => { state with refreshes := state.refreshes ++ [.failed err] }
  | .ok _ =>
    { state with
      refreshes := state.refreshes ++
        [.sampled (state.chain.length - 1) (state.chain.getLast?.getD [])] }

/-- `Refresh` from the RPC's answer to `buildSnapshot`. -/
def build (state : SourceRun) (index : ℕ) (sessionOrder grantOrder : List Account) : SourceRun :=
  match state.refreshes[index]? with
  | some (.sampled slot _) =>
    match readAccounts source.programID source.sessionKey sessionOrder grantOrder with
    | .ok fetched =>
      { state with refreshes := state.refreshes.set index (.built slot fetched state.now) }
    | .error err => { state with refreshes := state.refreshes.set index (.failed err) }
  | _ => state

/-- The locked section of `Refresh`. -/
def install (state : SourceRun) (index : ℕ) : SourceRun :=
  match state.refreshes[index]? with
  | some (.built slot fetched builtAt) =>
    { state with
      refreshes := state.refreshes.set index (.installed slot state.now)
      cache := some
        { snap := buildSnapshot fetched.session fetched.grants builtAt
          lastOK := state.now
          subAddrs := fetched.targets
          slot := slot
          fetched := fetched
          builtAt := builtAt } }
  | _ => state

def step (state : SourceRun) : SourceAction → SourceRun
  | .tick later => { state with now := later }
  | .advance accounts => { state with chain := state.chain ++ [accounts] }
  | .call outcome => state.call outcome
  | .build index sessionOrder grantOrder => state.build source index sessionOrder grantOrder
  | .install index => state.install index

/-- The loops of `Refresh` see the sampled accounts, each in some order. -/
def allowed (state : SourceRun) : SourceAction → Prop
  | .tick later => state.now ≤ later
  | .advance _ => True
  | .call _ => True
  | .build index sessionOrder grantOrder => ∀ slot accounts,
      state.refreshes[index]? = some (.sampled slot accounts) →
        sessionOrder.Perm accounts ∧ grantOrder.Perm accounts
  | .install _ => True

def machine (start : Time) (genesis : List Account) : Machine SourceRun SourceAction where
  init := ⟨start, [genesis], [], none⟩
  allowed := allowed
  step := step source

def snapshot (state : SourceRun) : Except String (Snapshot × Bool) :=
  match state.cache with
  | none => .error "walletsolana: no snapshot yet (cold start)"
  | some cached => .ok (cached.snap, state.now - cached.lastOK ≤ source.maxStaleness)

/-- What `VerifyNow` returns once its own `Refresh`, the one at `index`, has ended. -/
def verifyNow (state : SourceRun) (index : ℕ) (wallet : PublicKey) :
    Option (Except String (Caps × Bool)) :=
  match state.refreshes[index]?, state.cache with
  | some (.failed err), _ => some (.error err)
  | some (.installed _ _), some cached =>
    match cached.snap.grantCaps wallet with
    | some caps => some (.ok (caps, true))
    | none => some (.ok (0, false))
  | _, _ => none

theorem call_cases (state : SourceRun) (outcome : Except String Unit) :
    ∃ refresh, state.call outcome = { state with refreshes := state.refreshes ++ [refresh] } ∧
      ((∃ error, refresh = .failed error) ∨
        refresh = .sampled (state.chain.length - 1) (state.chain.getLast?.getD [])) := by
  cases outcome with
  | error err => exact ⟨_, rfl, .inl ⟨err, rfl⟩⟩
  | ok _ => exact ⟨_, rfl, .inr rfl⟩

theorem build_cases (state : SourceRun) (index : ℕ) (sessionOrder grantOrder : List Account) :
    state.build source index sessionOrder grantOrder = state ∨
      ∃ slot accounts refresh, state.refreshes[index]? = some (.sampled slot accounts) ∧
        state.build source index sessionOrder grantOrder =
          { state with refreshes := state.refreshes.set index refresh } ∧
        ((∃ error, refresh = .failed error) ∨ ∃ fetched,
          readAccounts source.programID source.sessionKey sessionOrder grantOrder = .ok fetched ∧
            refresh = .built slot fetched state.now) := by
  unfold build
  split
  · next slot accounts hsampled =>
    split
    · next fetched hread =>
      exact .inr ⟨slot, accounts, _, hsampled, rfl, .inr ⟨fetched, hread, rfl⟩⟩
    · next err _ => exact .inr ⟨slot, accounts, _, hsampled, rfl, .inl ⟨err, rfl⟩⟩
  · exact .inl rfl

/-- What `Refresh` does under its lock. -/
theorem install_cases (state : SourceRun) (index : ℕ) :
    state.install index = state ∨
      ∃ slot fetched builtAt, state.refreshes[index]? = some (.built slot fetched builtAt) ∧
        state.install index =
          { state with
            refreshes := state.refreshes.set index (.installed slot state.now)
            cache := some ⟨buildSnapshot fetched.session fetched.grants builtAt, state.now,
              fetched.targets, slot, fetched, builtAt⟩ } := by
  unfold install
  split
  · next slot fetched builtAt hbuilt => exact .inr ⟨slot, fetched, builtAt, hbuilt, rfl⟩
  · exact .inl rfl

end SourceRun

/-! ## What holds in every run -/

section Invariant

variable (source : Source)

/-- `fetched` is what `Refresh` reads from the accounts of this slot. -/
def FetchedAt (chain : List (List Account)) (slot : ℕ) (fetched : Fetched) : Prop :=
  ∃ accounts sessionOrder grantOrder, chain[slot]? = some accounts ∧ sessionOrder.Perm accounts ∧
    grantOrder.Perm accounts ∧
    readAccounts source.programID source.sessionKey sessionOrder grantOrder = .ok fetched

structure CachedFrom (chain : List (List Account)) (now : Time) (cached : Cached) : Prop where
  snap : cached.snap = buildSnapshot cached.fetched.session cached.fetched.grants cached.builtAt
  fetched : FetchedAt source chain cached.slot cached.fetched
  built : cached.builtAt ≤ cached.lastOK
  past : cached.lastOK ≤ now

def RefreshFrom (chain : List (List Account)) (now : Time) (cache : Option Cached) :
    Refresh → Prop
  | .sampled slot accounts => chain[slot]? = some accounts
  | .built slot fetched builtAt => FetchedAt source chain slot fetched ∧ builtAt ≤ now
  | .installed _ lastOK => ∃ cached, cache = some cached ∧ lastOK ≤ cached.lastOK
  | .failed _ => True

structure SourceInvariant (state : SourceRun) : Prop where
  nonempty : state.chain ≠ []
  cached : ∀ cached, state.cache = some cached → CachedFrom source state.chain state.now cached
  refreshes : ∀ refresh ∈ state.refreshes,
    RefreshFrom source state.chain state.now state.cache refresh

variable {source} {chain : List (List Account)} {now later : Time}

variable {fetched : Fetched} {cached : Cached} {genesis : List Account} {start : Time}

theorem FetchedAt.append {slot : ℕ} (hfetched : FetchedAt source chain slot fetched)
    (extra : List (List Account)) : FetchedAt source (chain ++ extra) slot fetched := by
  obtain ⟨accounts, sessionOrder, grantOrder, hslot, hrest⟩ := hfetched
  exact ⟨accounts, sessionOrder, grantOrder, getElem?_append_of_eq_some hslot extra, hrest⟩

/-- What the cache was built from stays on the chain. -/
theorem CachedFrom.mono (hcached : CachedFrom source chain now cached) (extra : List (List Account))
    (hlater : now ≤ later) :
    CachedFrom source (chain ++ extra) later cached where
  snap := hcached.snap
  fetched := hcached.fetched.append extra
  built := hcached.built
  past := hcached.past.trans hlater

theorem RefreshFrom.mono {cache : Option Cached} {refresh : Refresh}
    (hrefresh : RefreshFrom source chain now cache refresh) (extra : List (List Account))
    (hlater : now ≤ later) : RefreshFrom source (chain ++ extra) later cache refresh := by
  cases refresh with
  | sampled slot accounts => exact getElem?_append_of_eq_some hrefresh extra
  | built slot fetched builtAt => exact ⟨hrefresh.1.append extra, hrefresh.2.trans hlater⟩
  | installed slot lastOK => exact hrefresh
  | failed error => trivial

/-- A newly installed snapshot is stamped no earlier than any before it. -/
theorem RefreshFrom.install {cache : Option Cached} {refresh : Refresh}
    (hrefresh : RefreshFrom source chain now cache refresh) (hnow : cached.lastOK = now)
    (hpast : ∀ before, cache = some before → before.lastOK ≤ now) :
    RefreshFrom source chain now (some cached) refresh := by
  cases refresh with
  | sampled | built => exact hrefresh
  | installed slot lastOK =>
    obtain ⟨before, hbefore, hle⟩ := hrefresh
    refine ⟨cached, rfl, ?_⟩
    rw [hnow]
    exact hle.trans (hpast before hbefore)
  | failed error => trivial

variable {state : SourceRun}

/-- A longer chain and a later time keep what was known. -/
theorem SourceInvariant.grow (hinvariant : SourceInvariant source state)
    (extra : List (List Account)) {later : Time} (hlater : state.now ≤ later) :
    SourceInvariant source { state with now := later, chain := state.chain ++ extra } where
  nonempty := by simp [hinvariant.nonempty]
  cached cached hcached := (hinvariant.cached cached hcached).mono extra hlater
  refreshes refresh hmem := (hinvariant.refreshes refresh hmem).mono extra hlater

theorem SourceInvariant.call (hinvariant : SourceInvariant source state)
    (outcome : Except String Unit) : SourceInvariant source (state.call outcome) := by
  have hlast : state.chain[state.chain.length - 1]? = some (state.chain.getLast?.getD []) := by
    rw [← List.getLast?_eq_getElem?]
    cases hsome : state.chain.getLast? with
    | none => exact absurd (List.getLast?_eq_none_iff.mp hsome) hinvariant.nonempty
    | some last => rfl
  obtain ⟨refresh, hcall, hrefresh⟩ := state.call_cases outcome
  have hfrom : RefreshFrom source state.chain state.now state.cache refresh := by
    rcases hrefresh with ⟨error, rfl⟩ | rfl
    · trivial
    · exact hlast
  rw [hcall]
  refine ⟨hinvariant.nonempty, hinvariant.cached, ?_⟩
  intro other hother
  rcases List.mem_append.mp hother with hold | hadded
  · exact hinvariant.refreshes other hold
  · rw [List.mem_singleton.mp hadded]
    exact hfrom

/-- A snapshot is built from the accounts that were sampled. -/
theorem SourceInvariant.build (hinvariant : SourceInvariant source state) {index : ℕ}
    {sessionOrder grantOrder : List Account}
    (horders : ∀ slot accounts, state.refreshes[index]? = some (.sampled slot accounts) →
      sessionOrder.Perm accounts ∧ grantOrder.Perm accounts) :
    SourceInvariant source (state.build source index sessionOrder grantOrder) := by
  rcases state.build_cases source index sessionOrder grantOrder with
    hsame | ⟨slot, accounts, refresh, hsampled, hbuild, hrefresh⟩
  · rw [hsame]
    exact hinvariant
  have hslot : state.chain[slot]? = some accounts :=
    hinvariant.refreshes _ (List.mem_of_getElem? hsampled)
  have hfrom : RefreshFrom source state.chain state.now state.cache refresh := by
    rcases hrefresh with ⟨error, rfl⟩ | ⟨fetched, hread, rfl⟩
    · trivial
    · have hperm := horders slot accounts hsampled
      exact ⟨⟨accounts, sessionOrder, grantOrder, hslot, hperm.1, hperm.2, hread⟩, le_refl _⟩
  rw [hbuild]
  refine ⟨hinvariant.nonempty, hinvariant.cached, ?_⟩
  intro other hother
  rcases List.mem_or_eq_of_mem_set hother with hold | rfl
  · exact hinvariant.refreshes other hold
  · exact hfrom

/-- An installed snapshot is the one that was built. -/
theorem SourceInvariant.install (hinvariant : SourceInvariant source state) (index : ℕ) :
    SourceInvariant source (state.install index) := by
  rcases state.install_cases index with hsame | ⟨slot, fetched, builtAt, hbuilt, hinstall⟩
  · rw [hsame]
    exact hinvariant
  have hfrom : FetchedAt source state.chain slot fetched ∧ builtAt ≤ state.now :=
    hinvariant.refreshes _ (List.mem_of_getElem? hbuilt)
  rw [hinstall]
  refine ⟨hinvariant.nonempty, ?_, ?_⟩
  · intro cached hcached
    obtain rfl := Option.some.inj hcached
    exact ⟨rfl, hfrom.1, hfrom.2, le_refl _⟩
  · intro refresh hrefresh
    rcases List.mem_or_eq_of_mem_set hrefresh with hold | rfl
    · exact (hinvariant.refreshes refresh hold).install rfl fun before hbefore ↦
        (hinvariant.cached before hbefore).past
    · exact ⟨_, rfl, le_refl _⟩

/-- The cache and every refresh come from the chain. -/
theorem sourceInvariant (hreach : (SourceRun.machine source start genesis).Reachable state) :
    SourceInvariant source state := by
  refine hreach.invariant (P := SourceInvariant source) ?_ ?_
  · exact ⟨by simp [SourceRun.machine], by simp [SourceRun.machine], by simp [SourceRun.machine]⟩
  intro state action _ ih hallowed
  cases action with
  | tick later =>
    have hgrown := ih.grow [] hallowed
    rw [List.append_nil] at hgrown
    exact hgrown
  | advance accounts => exact ih.grow [accounts] (le_refl _)
  | call outcome => exact ih.call outcome
  | build index sessionOrder grantOrder => exact ih.build hallowed
  | install index => exact ih.install index

/-- A snapshot is fresh if its last refresh is not too long ago. -/
theorem SourceRun.snapshot_eq_ok {snap : Snapshot} {fresh : Bool}
    (hsnapshot : state.snapshot source = .ok (snap, fresh)) :
    ∃ cached, state.cache = some cached ∧ cached.snap = snap ∧
      decide (state.now - cached.lastOK ≤ source.maxStaleness) = fresh := by
  unfold SourceRun.snapshot at hsnapshot
  split at hsnapshot
  · cases hsnapshot
  · next cached hcache =>
    have hanswer := Prod.mk.inj (Except.ok.inj hsnapshot)
    exact ⟨cached, hcache, hanswer.1, hanswer.2⟩

theorem CachedFrom.owned (hcached : CachedFrom source chain now cached) :
    ∃ accounts, chain[cached.slot]? = some accounts ∧
      OwnedIn source.sessionKey accounts cached.snap.owner := by
  obtain ⟨accounts, sessionOrder, grantOrder, hslot, hsession, _, hread⟩ := hcached.fetched
  rw [hcached.snap]
  exact ⟨accounts, hslot, ownedIn_of_readAccounts hsession hread⟩

/-- A grant that the cached snapshot shows was on the chain, and live when the snapshot was built. -/
theorem CachedFrom.granted (hcached : CachedFrom source chain now cached) {wallet : PublicKey}
    {caps : Caps} (hcaps : cached.snap.grantCaps wallet = some caps) :
    ∃ accounts grant, chain[cached.slot]? = some accounts ∧
      GrantedIn source.sessionKey accounts grant ∧ grant.grantee = wallet ∧ grant.caps = caps ∧
      (grant.expiry = 0 ∨ cached.builtAt.unix < grant.expiry) := by
  rw [hcached.snap] at hcaps
  obtain ⟨grant, hmem, hlive, hgrantee, hsame⟩ := grantCaps_buildSnapshot hcaps
  obtain ⟨accounts, sessionOrder, grantOrder, hslot, hsession, hgrants, hread⟩ := hcached.fetched
  have hgranted := grantedIn_of_readAccounts hsession hgrants hread hmem hlive.1
  exact ⟨accounts, grant, hslot, hgranted, hgrantee, hsame, hlive.2⟩

/-- `later` follows `earlier`: time has passed, the chain has grown, and refreshes that were installed
in between are stamped in between. -/
structure Follows (earlier later : SourceRun) : Prop where
  now : earlier.now ≤ later.now
  chain : ∃ extra, later.chain = earlier.chain ++ extra
  installed : ∀ (index : ℕ) slot lastOK, later.refreshes[index]? = some (.installed slot lastOK) →
    earlier.refreshes[index]? = some (.installed slot lastOK) ∨ earlier.now ≤ lastOK

theorem Follows.refl (state : SourceRun) : Follows state state :=
  ⟨le_refl _, ⟨[], (List.append_nil _).symm⟩, fun _ _ _ hinstalled ↦ .inl hinstalled⟩

theorem Follows.trans (first second third : SourceRun) (hfirst : Follows first second)
    (hsecond : Follows second third) : Follows first third where
  now := hfirst.now.trans hsecond.now
  chain := by
    obtain ⟨extra, hextra⟩ := hfirst.chain
    obtain ⟨extra', hextra'⟩ := hsecond.chain
    exact ⟨extra ++ extra', by rw [hextra', hextra, List.append_assoc]⟩
  installed index slot lastOK hinstalled := by
    rcases hsecond.installed index slot lastOK hinstalled with hbefore | hafter
    · exact hfirst.installed index slot lastOK hbefore
    · exact .inr (hfirst.now.trans hafter)

theorem getElem?_set_eq_some {items : List Refresh} {index position : ℕ} {item other : Refresh}
    (hset : (items.set index item)[position]? = some other) :
    other = item ∨ items[position]? = some other := by
  rw [List.getElem?_set] at hset
  split_ifs at hset
  · exact .inl (Option.some.inj hset).symm
  · exact .inr hset

/-- In a step time and chain only grow, and what it installs is stamped with its time. -/
theorem Follows.step {action : SourceAction} (hallowed : state.allowed action) :
    Follows state (state.step source action) := by
  have hquiet : ∀ refreshes cache, (∀ (index : ℕ) slot lastOK,
      refreshes[index]? = some (Refresh.installed slot lastOK) →
        state.refreshes[index]? = some (.installed slot lastOK) ∨ state.now ≤ lastOK) →
      Follows state { state with refreshes := refreshes, cache := cache } := fun _ _ hinstalled ↦
    ⟨le_refl _, ⟨[], (List.append_nil _).symm⟩, hinstalled⟩
  have hset : ∀ (index : ℕ) refresh cache,
      (∀ slot lastOK, refresh = Refresh.installed slot lastOK → state.now ≤ lastOK) →
      Follows state { state with refreshes := state.refreshes.set index refresh, cache := cache } := by
    intro index refresh cache hrefresh
    apply hquiet
    intro position slot lastOK hposition
    rcases getElem?_set_eq_some hposition with hnew | hold
    · exact .inr (hrefresh slot lastOK hnew.symm)
    · exact .inl hold
  cases action with
  | tick later =>
    exact ⟨hallowed, ⟨[], (List.append_nil _).symm⟩, fun _ _ _ hinstalled ↦ .inl hinstalled⟩
  | advance accounts => exact ⟨le_refl _, ⟨[accounts], rfl⟩, fun _ _ _ hinstalled ↦ .inl hinstalled⟩
  | call outcome =>
    obtain ⟨refresh, hcall, hrefresh⟩ := state.call_cases outcome
    have hopen : ∀ slot lastOK, refresh ≠ .installed slot lastOK := by
      rcases hrefresh with ⟨error, rfl⟩ | rfl <;> simp
    change Follows state (state.call outcome)
    rw [hcall]
    apply hquiet
    intro index slot lastOK hindex
    rcases getElem?_concat_eq_some.mp hindex with hindex | ⟨_, hnew⟩
    · exact .inl hindex
    · exact absurd hnew.symm (hopen slot lastOK)
  | build index sessionOrder grantOrder =>
    change Follows state (state.build source index sessionOrder grantOrder)
    rcases state.build_cases source index sessionOrder grantOrder with
      hsame | ⟨slot, accounts, refresh, _, hbuild, hrefresh⟩
    · rw [hsame]
      exact .refl state
    · rw [hbuild]
      apply hset
      rcases hrefresh with ⟨error, rfl⟩ | ⟨fetched, _, rfl⟩ <;> simp
  | install index =>
    change Follows state (state.install index)
    rcases state.install_cases index with hsame | ⟨slot, fetched, builtAt, _, hinstall⟩
    · rw [hsame]
      exact .refl state
    · rw [hinstall]
      apply hset
      rintro _ _ ⟨⟩
      exact le_refl _

/-- In a run time and chain only grow, and what it installs is stamped in between. -/
theorem follows_run {actions : List SourceAction}
    (hreach : (SourceRun.machine source start genesis).Reachable state)
    (hlegal : (SourceRun.machine source start genesis).Legal state actions) :
    Follows state ((SourceRun.machine source start genesis).run state actions) :=
  Machine.run_related Follows.refl Follows.trans (fun _ _ _ hallowed ↦ Follows.step hallowed) hreach
    hlegal

theorem SourceRun.run_refresh_tick
    (hread : readAccounts source.programID source.sessionKey genesis genesis = .ok fetched)
    (later : Time) :
    (machine source start genesis).run (machine source start genesis).init
        [.call (.ok ()), .build 0 genesis genesis, .install 0, .tick later] =
      { now := later
        chain := [genesis]
        refreshes := [.installed 0 start]
        cache := some ⟨buildSnapshot fetched.session fetched.grants start, start, fetched.targets, 0,
          fetched, start⟩ } := by
  simp [Machine.run, machine, step, call, build, hread, install]

theorem SourceRun.legal_refresh_tick
    (hread : readAccounts source.programID source.sessionKey genesis genesis = .ok fetched)
    {later : Time} (hlater : start ≤ later) :
    (machine source start genesis).Legal (machine source start genesis).init
      [.call (.ok ()), .build 0 genesis genesis, .install 0, .tick later] := by
  simp [Machine.Legal, machine, allowed, step, call, build, hread, install, hlater]

end Invariant

def exampleSolana : Source := ⟨"mosey", (freeKey 2).1, 30 * nanosPerSecond⟩

end Mosey.WalletSolana
