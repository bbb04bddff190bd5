import Mosey.WalletSolana.Source

/-!
# Rollback of installed snapshots

Refreshes sample the chain one after another but are installed in any order, and the time stamp is
taken when they are installed. A refresh that sampled early and is installed late replaces what later
refreshes found, and the old state counts as fresh again. If every refresh is installed before those
that sampled after it, the slot that the installed snapshot reflects never decreases, and a revoked
grant or a former owner comes back only if the chain itself brings it back.
-/

namespace Mosey.WalletSolana

open Library Wallet

section Rollback

variable (source : Source)

def Refresh.isInstalled : Refresh → Bool
  | .installed _ _ => true
  | _ => false

def Refresh.slot : Refresh → Option ℕ
  | .sampled slot _ => some slot
  | .built slot _ _ => some slot
  | .installed slot _ => some slot
  | .failed _ => none

/-- A refresh is installed only if none that sampled after it has been installed. -/
def InstalledInOrder (state : SourceRun) : SourceAction → Prop
  | .install index => ∀ later ∈ List.range state.refreshes.length, index < later →
      ∀ refresh ∈ state.refreshes[later]?, refresh.isInstalled = false
  | _ => True

/-- The session belongs to this wallet at this slot of the chain. -/
def OwnedAt (chain : List (List Account)) (slot : ℕ) (owner : PublicKey) : Prop :=
  ∃ accounts, chain[slot]? = some accounts ∧ OwnedIn source.sessionKey accounts owner

/-- The wallet has a grant of the session's current epoch at this slot of the chain. -/
def GrantedAt (chain : List (List Account)) (slot : ℕ) (wallet : PublicKey) : Prop :=
  ∃ accounts grant, chain[slot]? = some accounts ∧ GrantedIn source.sessionKey accounts grant ∧
    grant.grantee = wallet

/-- What a snapshot shows later comes from no earlier slot, and what had gone from the chain comes
back only from a later one. -/
structure NoRollback (earlier later : SourceRun) : Prop where
  slots : ∀ cached, earlier.cache = some cached →
    ∃ cached', later.cache = some cached' ∧ cached.slot ≤ cached'.slot
  owner : ∀ cached snap fresh, earlier.cache = some cached →
    later.snapshot source = .ok (snap, fresh) → ¬ OwnedAt source earlier.chain cached.slot snap.owner →
      ∃ slot, cached.slot < slot ∧ OwnedAt source later.chain slot snap.owner
  grant : ∀ cached snap fresh wallet caps, earlier.cache = some cached →
    later.snapshot source = .ok (snap, fresh) → snap.grantCaps wallet = some caps →
      ¬ GrantedAt source earlier.chain cached.slot wallet →
        ∃ slot, cached.slot < slot ∧ GrantedAt source later.chain slot wallet

/-- Refreshes reflect slots of the chain, and those that sampled later reflect no earlier slot. -/
structure SlotsOrdered (chain : List (List Account)) (refreshes : List Refresh) : Prop where
  bounded : ∀ refresh ∈ refreshes, ∀ slot ∈ refresh.slot, slot < chain.length
  ordered : ∀ (index later : ℕ) first second, index < later →
    refreshes[index]? = some first → refreshes[later]? = some second →
      ∀ slot ∈ first.slot, ∀ slot' ∈ second.slot, slot ≤ slot'

/-- The cached snapshot is that of a refresh that has been installed. -/
def CacheInstalled (state : SourceRun) : Prop :=
  ∀ cached, state.cache = some cached →
    ∃ (index : ℕ) (lastOK : Time), state.refreshes[index]? = some (.installed cached.slot lastOK)

variable {source} {chain : List (List Account)} {refreshes : List Refresh} {state : SourceRun}

theorem SlotsOrdered.grow (hslots : SlotsOrdered chain refreshes) (accounts : List Account) :
    SlotsOrdered (chain ++ [accounts]) refreshes where
  bounded refresh hmem slot hslot := by
    have hlt := hslots.bounded refresh hmem slot hslot
    rw [List.length_append]
    omega
  ordered := hslots.ordered

/-- A refresh that reflects the last slot, or none, may follow all others. -/
theorem SlotsOrdered.append (hslots : SlotsOrdered chain refreshes) {refresh : Refresh}
    (hlast : ∀ slot ∈ refresh.slot, slot + 1 = chain.length) :
    SlotsOrdered chain (refreshes ++ [refresh]) where
  bounded other hmem slot hslot := by
    rcases List.mem_append.mp hmem with hold | hadded
    · exact hslots.bounded other hold slot hslot
    · rw [List.mem_singleton.mp hadded] at hslot
      have hsucc := hlast slot hslot
      omega
  ordered index later first second hlt hfirst hsecond slot hslot slot' hslot' := by
    have hlater := (List.getElem?_eq_some_iff.mp hsecond).1
    rw [List.length_append, List.length_singleton] at hlater
    have hindex : index < refreshes.length := by omega
    rw [List.getElem?_append_left hindex] at hfirst
    rcases getElem?_concat_eq_some.mp hsecond with hsecond | ⟨_, hnew⟩
    · exact hslots.ordered index later first second hlt hfirst hsecond slot hslot slot' hslot'
    · rw [hnew] at hslot'
      have hbound := hslots.bounded first (List.mem_of_getElem? hfirst) slot hslot
      have hsucc := hlast slot' hslot'
      omega

/-- A refresh that moves on keeps its slot, or fails and reflects none. -/
theorem SlotsOrdered.set (hslots : SlotsOrdered chain refreshes) {index : ℕ}
    {before refresh : Refresh} (hbefore : refreshes[index]? = some before)
    (hslot : ∀ slot ∈ refresh.slot, slot ∈ before.slot) :
    SlotsOrdered chain (refreshes.set index refresh) := by
  have horiginal : ∀ (position : ℕ) other, (refreshes.set index refresh)[position]? = some other →
      ∃ original, refreshes[position]? = some original ∧ ∀ slot ∈ other.slot, slot ∈ original.slot := by
    intro position other hother
    rw [List.getElem?_set] at hother
    split_ifs at hother with hposition
    · rw [← hposition, ← Option.some.inj hother]
      exact ⟨before, hbefore, hslot⟩
    · exact ⟨other, hother, fun _ hmem ↦ hmem⟩
  constructor
  · intro other hmem slot hother
    obtain ⟨position, hposition⟩ := List.mem_iff_getElem?.mp hmem
    obtain ⟨original, hfound, hsame⟩ := horiginal position other hposition
    exact hslots.bounded original (List.mem_of_getElem? hfound) slot (hsame slot hother)
  · intro index later first second hlt hfirst hsecond slot hfirstSlot slot' hsecondSlot
    obtain ⟨original, hfound, hsame⟩ := horiginal index first hfirst
    obtain ⟨original', hfound', hsame'⟩ := horiginal later second hsecond
    exact hslots.ordered index later original original' hlt hfound hfound' slot
      (hsame slot hfirstSlot) slot' (hsame' slot' hsecondSlot)

variable {genesis : List Account} {start : Time}

/-- Refreshes that sampled later reflect no earlier slot. -/
theorem slotsOrdered (hreach : (SourceRun.machine source start genesis).Reachable state) :
    SlotsOrdered state.chain state.refreshes := by
  refine hreach.invariant (P := fun state ↦ SlotsOrdered state.chain state.refreshes) ?_ ?_
  · exact ⟨by simp [SourceRun.machine], by simp [SourceRun.machine]⟩
  intro state action hreach ih _
  cases action with
  | tick later => exact ih
  | advance accounts => exact ih.grow accounts
  | call outcome =>
    obtain ⟨refresh, hcall, hrefresh⟩ := state.call_cases outcome
    have hpos := List.length_pos_of_ne_nil (sourceInvariant hreach).nonempty
    have hlast : ∀ slot ∈ refresh.slot, slot + 1 = state.chain.length := by
      rcases hrefresh with ⟨error, rfl⟩ | rfl
      · simp [Refresh.slot]
      · simp only [Refresh.slot, Option.mem_def, Option.some.injEq, forall_eq']
        omega
    change SlotsOrdered (state.call outcome).chain (state.call outcome).refreshes
    rw [hcall]
    exact ih.append hlast
  | build index sessionOrder grantOrder =>
    change SlotsOrdered (state.build source index sessionOrder grantOrder).chain
      (state.build source index sessionOrder grantOrder).refreshes
    rcases state.build_cases source index sessionOrder grantOrder with
      hsame | ⟨slot, accounts, refresh, hsampled, hbuild, hrefresh⟩
    · rw [hsame]
      exact ih
    · rw [hbuild]
      apply ih.set hsampled
      rcases hrefresh with ⟨error, rfl⟩ | ⟨fetched, _, rfl⟩ <;> simp [Refresh.slot]
  | install index =>
    change SlotsOrdered (state.install index).chain (state.install index).refreshes
    rcases state.install_cases index with hsame | ⟨slot, fetched, builtAt, hbuilt, hinstall⟩
    · rw [hsame]
      exact ih
    · rw [hinstall]
      exact ih.set hbuilt (by simp [Refresh.slot])

/-- Only a refresh that is not installed yet moves on. -/
theorem CacheInstalled.set (hcache : CacheInstalled state) {index : ℕ} {before refresh : Refresh}
    (hbefore : state.refreshes[index]? = some before) (hopen : before.isInstalled = false) :
    CacheInstalled { state with refreshes := state.refreshes.set index refresh } := by
  intro cached hcached
  obtain ⟨position, lastOK, hposition⟩ := hcache cached hcached
  have hne : index ≠ position := by
    rintro rfl
    rw [hbefore] at hposition
    obtain rfl := Option.some.inj hposition
    cases hopen
  exact ⟨position, lastOK, (List.getElem?_set_ne hne).trans hposition⟩

/-- The cache is what a refresh has installed. -/
theorem cacheInstalled (hreach : (SourceRun.machine source start genesis).Reachable state) :
    CacheInstalled state := by
  refine hreach.invariant (P := CacheInstalled) ?_ ?_
  · simp [CacheInstalled, SourceRun.machine]
  intro state action _ ih _
  cases action with
  | tick | advance => exact ih
  | call outcome =>
    obtain ⟨refresh, hcall, _⟩ := state.call_cases outcome
    change CacheInstalled (state.call outcome)
    rw [hcall]
    intro cached hcached
    obtain ⟨index, lastOK, hindex⟩ := ih cached hcached
    exact ⟨index, lastOK, getElem?_append_of_eq_some hindex _⟩
  | build index sessionOrder grantOrder =>
    change CacheInstalled (state.build source index sessionOrder grantOrder)
    rcases state.build_cases source index sessionOrder grantOrder with
      hsame | ⟨slot, accounts, refresh, hsampled, hbuild, _⟩
    · rw [hsame]
      exact ih
    · rw [hbuild]
      exact ih.set hsampled rfl
  | install index =>
    change CacheInstalled (state.install index)
    rcases state.install_cases index with hsame | ⟨slot, fetched, builtAt, hbuilt, hinstall⟩
    · rw [hsame]
      exact ih
    · rw [hinstall]
      intro cached hcached
      obtain rfl := Option.some.inj hcached
      have hlt := (List.getElem?_eq_some_iff.mp hbuilt).1
      exact ⟨index, state.now, List.getElem?_set_self hlt⟩

/-! ## The installed slot -/

/-- Once a snapshot is installed there always is one, and its slot does not decrease. -/
def SlotAdvances (earlier later : SourceRun) : Prop :=
  ∀ cached, earlier.cache = some cached →
    ∃ cached', later.cache = some cached' ∧ cached.slot ≤ cached'.slot

theorem SlotAdvances.refl (state : SourceRun) : SlotAdvances state state :=
  fun cached hcached ↦ ⟨cached, hcached, le_refl _⟩

theorem SlotAdvances.trans (first second third : SourceRun) (hfirst : SlotAdvances first second)
    (hsecond : SlotAdvances second third) : SlotAdvances first third := by
  intro cached hcached
  obtain ⟨cached', hcached', hle⟩ := hfirst cached hcached
  obtain ⟨cached'', hcached'', hle'⟩ := hsecond cached' hcached'
  exact ⟨cached'', hcached'', hle.trans hle'⟩

/-- Installed in order, a refresh never takes the cache to an earlier slot. -/
theorem SlotAdvances.step (hslots : SlotsOrdered state.chain state.refreshes)
    (hinstalled : CacheInstalled state) {action : SourceAction}
    (horder : InstalledInOrder state action) : SlotAdvances state (state.step source action) := by
  have hkept : ∀ state', state'.cache = state.cache → SlotAdvances state state' :=
    fun _ hcache cached hcached ↦ ⟨cached, hcache.trans hcached, le_refl _⟩
  cases action with
  | tick | advance => exact hkept _ rfl
  | call outcome =>
    obtain ⟨refresh, hcall, _⟩ := state.call_cases outcome
    exact hkept (state.call outcome) (by rw [hcall])
  | build index sessionOrder grantOrder =>
    apply hkept (state.build source index sessionOrder grantOrder)
    rcases state.build_cases source index sessionOrder grantOrder with
      hsame | ⟨_, _, _, _, hbuild, _⟩
    · rw [hsame]
    · rw [hbuild]
  | install index =>
    change SlotAdvances state (state.install index)
    rcases state.install_cases index with hsame | ⟨slot, fetched, builtAt, hbuilt, hinstall⟩
    · exact hkept _ (by rw [hsame])
    rw [hinstall]
    intro cached hcached
    refine ⟨_, rfl, ?_⟩
    obtain ⟨position, lastOK, hposition⟩ := hinstalled cached hcached
    rcases lt_trichotomy position index with hbefore | rfl | hafter
    · exact hslots.ordered position index _ _ hbefore hposition hbuilt _ rfl _ rfl
    · rw [hbuilt] at hposition
      cases hposition
    · have hlt := (List.getElem?_eq_some_iff.mp hposition).1
      have hopen := horder position (List.mem_range.mpr hlt) hafter _ hposition
      cases hopen

/-- Over a run in order, the cache never goes back to an earlier slot. -/
theorem slotAdvances_run {actions : List SourceAction}
    (hreach : ((SourceRun.machine source start genesis).restrict InstalledInOrder).Reachable state)
    (hlegal : ((SourceRun.machine source start genesis).restrict InstalledInOrder).Legal state
      actions) : SlotAdvances state ((SourceRun.machine source start genesis).run state actions) := by
  apply Machine.run_related SlotAdvances.refl SlotAdvances.trans ?_ hreach hlegal
  intro state action hreach hallowed
  have hslots := slotsOrdered hreach.of_restrict
  exact SlotAdvances.step hslots (cacheInstalled hreach.of_restrict) hallowed.2

variable {earlier later : SourceRun} {cached : Cached}

/-- The accounts at the slot of an installed snapshot stay what they were. -/
theorem Follows.chain_at (hfollows : Follows earlier later)
    (hinvariant : SourceInvariant source earlier) (hcache : earlier.cache = some cached) :
    later.chain[cached.slot]? = earlier.chain[cached.slot]? := by
  obtain ⟨extra, hextra⟩ := hfollows.chain
  obtain ⟨accounts, _, _, hslot, _⟩ := (hinvariant.cached cached hcache).fetched
  rw [hextra, getElem?_append_of_eq_some hslot, hslot]

/-- What held of the accounts at the later snapshot's slot, and not at the earlier one's, came up on the
chain in between. -/
theorem Follows.slot_lt (hfollows : Follows earlier later)
    (hinvariant : SourceInvariant source earlier) (hadvances : SlotAdvances earlier later)
    {cached' : Cached} (hcache : earlier.cache = some cached) (hcache' : later.cache = some cached')
    (held : Option (List Account) → Prop) (hgone : ¬ held earlier.chain[cached.slot]?)
    (hheld : held later.chain[cached'.slot]?) : cached.slot < cached'.slot := by
  obtain ⟨found, hfound, hle⟩ := hadvances cached hcache
  obtain rfl : cached' = found := Option.some.inj (hcache'.symm.trans hfound)
  apply lt_of_le_of_ne hle
  intro heq
  rw [← heq, hfollows.chain_at hinvariant hcache] at hheld
  exact hgone hheld

/-- If every refresh is installed before those that sampled after it, the installed snapshot never goes
back to an earlier slot, and no grant or owner that had gone comes back unless the chain brings it
back. -/
theorem no_rollback_of_installed_in_order {start : Time} {genesis : List Account}
    {actions : List SourceAction}
    (hreach : ((SourceRun.machine source start genesis).restrict InstalledInOrder).Reachable earlier)
    (hlegal : ((SourceRun.machine source start genesis).restrict InstalledInOrder).Legal earlier
      actions) :
    NoRollback source earlier ((SourceRun.machine source start genesis).run earlier actions) := by
  have hadvances := slotAdvances_run hreach hlegal
  have hlegal' := Machine.legal_of_restrict hlegal
  have hfollows := follows_run hreach.of_restrict hlegal'
  have hinvariant := sourceInvariant hreach.of_restrict
  have hinvariant' := sourceInvariant (hreach.of_restrict.run hlegal')
  refine ⟨hadvances, ?_, ?_⟩
  · intro cached snap fresh hcache hsnapshot hgone
    obtain ⟨cached', hcache', rfl, _⟩ := SourceRun.snapshot_eq_ok hsnapshot
    have howned := (hinvariant'.cached cached' hcache').owned
    have hlt := hfollows.slot_lt hinvariant hadvances hcache hcache'
      (fun slot ↦ ∃ accounts, slot = some accounts ∧ OwnedIn source.sessionKey accounts _)
      hgone howned
    exact ⟨cached'.slot, hlt, howned⟩
  · intro cached snap fresh wallet caps hcache hsnapshot hcaps hgone
    obtain ⟨cached', hcache', rfl, _⟩ := SourceRun.snapshot_eq_ok hsnapshot
    obtain ⟨accounts, grant, hslot, hin, hgrantee, _⟩ :=
      (hinvariant'.cached cached' hcache').granted hcaps
    have hgranted : GrantedAt source _ cached'.slot wallet := ⟨accounts, grant, hslot, hin, hgrantee⟩
    have hlt := hfollows.slot_lt hinvariant hadvances hcache hcache' (fun slot ↦
      ∃ accounts grant, slot = some accounts ∧ GrantedIn source.sessionKey accounts grant ∧
        grant.grantee = wallet) hgone hgranted
    exact ⟨cached'.slot, hlt, hgranted⟩

variable {start : Time} {first second : List Account} {fetched fetched' : Fetched}

/-- The snapshot of a refresh that was built and installed at the time `start`. -/
def Fetched.cachedAt (fetched : Fetched) (start : Time) (slot : ℕ) : Cached :=
  ⟨buildSnapshot fetched.session fetched.grants start, start, fetched.targets, slot, fetched, start⟩

/-- The second refresh samples after the chain has changed, and is installed first. -/
def overtakingRun (second : List Account) : List SourceAction :=
  [.call (.ok ()), .advance second, .call (.ok ()), .build 1 second second, .install 1]

/-- The second refresh is sampled later and installed first. -/
theorem SourceRun.run_overtaking
    (hread : readAccounts source.programID source.sessionKey second second = .ok fetched') :
    (machine source start first).run (machine source start first).init (overtakingRun second) =
      ⟨start, [first, second], [.sampled 0 first, .installed 1 start],
        some (fetched'.cachedAt start 1)⟩ := by
  simp [overtakingRun, Fetched.cachedAt, Machine.run, machine, step, call, build, hread, install]

theorem SourceRun.legal_overtaking :
    (machine source start first).Legal (machine source start first).init (overtakingRun second) := by
  simp [overtakingRun, Machine.Legal, machine, allowed, step, call]

theorem SourceRun.run_overtaken (cache : Option Cached)
    (hread : readAccounts source.programID source.sessionKey first first = .ok fetched) :
    (machine source start first).run
        ⟨start, [first, second], [.sampled 0 first, .installed 1 start], cache⟩
        [.build 0 first first, .install 0] =
      ⟨start, [first, second], [.installed 0 start, .installed 1 start],
        some (fetched.cachedAt start 0)⟩ := by
  simp [Fetched.cachedAt, Machine.run, machine, step, build, hread, install]

theorem SourceRun.legal_overtaken (cache : Option Cached) :
    (machine source start first).Legal
      ⟨start, [first, second], [.sampled 0 first, .installed 1 start], cache⟩
      [.build 0 first first, .install 0] := by
  simp [Machine.Legal, machine, allowed]

/-- A whole refresh, the one at `index`, that sees the accounts in their order. -/
def refreshRun (index : ℕ) (accounts : List Account) : List SourceAction :=
  [.call (.ok ()), .build index accounts accounts, .install index]

theorem SourceRun.run_refresh
    (hread : readAccounts source.programID source.sessionKey first first = .ok fetched) :
    (machine source start first).run (machine source start first).init (refreshRun 0 first) =
      ⟨start, [first], [.installed 0 start], some (fetched.cachedAt start 0)⟩ := by
  simp [refreshRun, Fetched.cachedAt, Machine.run, machine, step, call, build, hread, install]

theorem SourceRun.legal_refresh
    (hread : readAccounts source.programID source.sessionKey first first = .ok fetched) :
    ((machine source start first).restrict InstalledInOrder).Legal (machine source start first).init
      (refreshRun 0 first) := by
  simp [refreshRun, Machine.Legal, Machine.restrict, InstalledInOrder, machine, allowed, step, call,
    build, hread]

theorem SourceRun.legal_advance_refresh (cache : Option Cached)
    (hread : readAccounts source.programID source.sessionKey second second = .ok fetched') :
    ((machine source start first).restrict InstalledInOrder).Legal
      ⟨start, [first], [.installed 0 start], cache⟩ (.advance second :: refreshRun 1 second) := by
  simp [refreshRun, Machine.Legal, Machine.restrict, InstalledInOrder, machine, allowed, step, call,
    build, hread]
  omega

end Rollback

section Example

/-- The example session after its grant has been revoked. -/
def revokedAccounts : List Account := [exampleSessionAccount]

def revokedFetched : Fetched :=
  ⟨⟨(freeKey 2).1, (freeKey 1).1, 0⟩, [], [address exampleAddress]⟩

theorem readAccounts_revoked : readAccounts exampleSolana.programID exampleSolana.sessionKey
    revokedAccounts revokedAccounts = .ok revokedFetched := by
  decide +kernel

theorem not_grantedIn_revoked (grant : Grant) :
    ¬ GrantedIn exampleSolana.sessionKey revokedAccounts grant := by
  rintro ⟨_, _, _, sessAddr, _, _, _, holder, hholder, pubkey, hgrant⟩
  rw [List.mem_singleton.mp hholder] at hgrant
  have hnone : grantAccount sessAddr exampleSessionAccount = none := by
    unfold grantAccount
    rw [if_pos (by decide)]
  rw [hnone] at hgrant
  cases hgrant

/-- The chain has revoked the grant of key 4, and the refresh that saw this is installed. -/
def overtakingState : SourceRun :=
  ⟨0, [exampleAccounts, revokedAccounts], [.sampled 0 exampleAccounts, .installed 1 0],
    some (revokedFetched.cachedAt 0 1)⟩

theorem overtakingState_reachable :
    (SourceRun.machine exampleSolana 0 exampleAccounts).Reachable overtakingState := by
  have hrun : (SourceRun.machine exampleSolana 0 exampleAccounts).run
      (SourceRun.machine exampleSolana 0 exampleAccounts).init (overtakingRun revokedAccounts) =
        overtakingState := SourceRun.run_overtaking readAccounts_revoked
  rw [← hrun]
  exact Machine.Reachable.init.run SourceRun.legal_overtaking

/-- Two refreshes in flight are installed in the wrong order. The snapshot without the grant of key 4
gives way to the earlier one that shows it, and this counts as fresh although the chain has not
changed and has no such grant. -/
theorem revoked_grant_returns : ∃ earlier actions later cached cached' snap,
    (SourceRun.machine exampleSolana 0 exampleAccounts).Reachable earlier ∧
      (SourceRun.machine exampleSolana 0 exampleAccounts).Legal earlier actions ∧
      (SourceRun.machine exampleSolana 0 exampleAccounts).run earlier actions = later ∧
      earlier.cache = some cached ∧ cached.snap.grantCaps (freeKey 4).1 = none ∧
      later.cache = some cached' ∧ cached'.slot < cached.slot ∧
      later.snapshot exampleSolana = .ok (snap, true) ∧
      snap.grantCaps (freeKey 4).1 = some capWrite ∧
      ∀ slot, cached.slot ≤ slot → ¬ GrantedAt exampleSolana later.chain slot (freeKey 4).1 := by
  refine ⟨overtakingState, _, _, revokedFetched.cachedAt 0 1, exampleFetched.cachedAt 0 0, _,
    overtakingState_reachable, SourceRun.legal_overtaken _,
    SourceRun.run_overtaken _ readAccounts_example, rfl, rfl, rfl, by decide, rfl,
    by decide +kernel, ?_⟩
  rintro slot hslot ⟨accounts, grant, haccounts, hgranted, _⟩
  have hlt := (List.getElem?_eq_some_iff.mp haccounts).1
  obtain rfl : slot = 1 := le_antisymm (Nat.le_of_lt_succ hlt) hslot
  obtain rfl : revokedAccounts = accounts := Option.some.inj haccounts
  exact not_grantedIn_revoked grant hgranted

/-- A refresh, the revocation, and a second refresh. -/
theorem no_rollback_of_installed_in_order_revoked : NoRollback exampleSolana
    ⟨0, [exampleAccounts], [.installed 0 0], some (exampleFetched.cachedAt 0 0)⟩
    ((SourceRun.machine exampleSolana 0 exampleAccounts).run
      ⟨0, [exampleAccounts], [.installed 0 0], some (exampleFetched.cachedAt 0 0)⟩
      (.advance revokedAccounts :: refreshRun 1 revokedAccounts)) := by
  apply no_rollback_of_installed_in_order ?_ (SourceRun.legal_advance_refresh _ readAccounts_revoked)
  have hrun : (SourceRun.machine exampleSolana 0 exampleAccounts).run
      (SourceRun.machine exampleSolana 0 exampleAccounts).init (refreshRun 0 exampleAccounts) =
        ⟨0, [exampleAccounts], [.installed 0 0], some (exampleFetched.cachedAt 0 0)⟩ :=
    SourceRun.run_refresh readAccounts_example
  rw [← hrun]
  exact Machine.Reachable.init.run (SourceRun.legal_refresh readAccounts_example)

end Example

end Mosey.WalletSolana
