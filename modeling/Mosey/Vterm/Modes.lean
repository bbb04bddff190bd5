import Mathlib.Data.List.Induction
import Mosey.Vterm.Session

/-!
# What the modes guarantee

The guarantees of a mode are invariants of the sessions that stay in it. A change of the mode keeps the
permissions of the clients that are there, so writers can exist that the writer seat does not name, and
a promotion demotes only the one it names.
-/

namespace Mosey.Vterm

open Library Auth

namespace Session

/-- Every registered writer holds the writer seat. -/
def SeatedWriters (session : Session) : Prop :=
  ∀ client ∈ session.clients, client.registered = true → client.canWrite = true →
    client.id = session.writerID

def OneRegistered (session : Session) : Prop :=
  ∀ client ∈ session.clients, ∀ other ∈ session.clients, client.registered = true →
    other.registered = true → client = other

/-- The only client that is not kicked is the one admitted last. -/
def NewestLive (session : Session) : Prop :=
  ∀ client ∈ session.clients, client.registered = true → client.kicked = false →
    client.id = session.nextID

section Steps

variable {session : Session} {action : SessionAction}

theorem writerID_ne_zero (hnumbered : session.Numbered) {client : SessionClient}
    (hclient : client ∈ session.clients) (hseat : client.id = session.writerID) :
    session.writerID ≠ 0 := by
  have := (hnumbered.id_bounds hclient).1
  omega

/-- A client that joins writes only if it takes the seat. -/
theorem seatedWriters_addClient (hnumbered : session.Numbered)
    (hmode : session.mode = .primaryObserver) (hseated : session.SeatedWriters) (identity : Identity)
    (remote : String) : (session.step (.addClient identity remote)).SeatedWriters := by
  cases hadd : session.addClientLocked identity remote with
  | none =>
    rw [step_addClient_refused hadd]
    exact hseated
  | some result =>
    obtain ⟨added, client, size⟩ := result
    obtain ⟨ready, canWrite, hadmission, _, _, hclients, hwriter, _, _, _, _, _, hcan, _⟩ :=
      addClientLocked_eq_some hadd
    simp only [admission, hmode, Option.some.injEq, Prod.mk.injEq] at hadmission
    obtain ⟨rfl, rfl⟩ := hadmission
    rw [step_addClient hadd]
    intro found hfound hregistered hwrites
    rw [hclients, List.mem_append, List.mem_map] at hfound
    rcases hfound with ⟨before, hbefore, rfl⟩ | hnew
    · -- a writer that is there holds the seat, so the seat is taken
      have hsame : session.after (.addClient identity remote) before = before := by
        simp [after, hmode]
      rw [hsame] at hregistered hwrites ⊢
      have hseat := hseated before hbefore hregistered hwrites
      have htaken : (session.client? session.writerID).isSome := by
        rw [client?_isSome]
        exact ⟨before, hbefore, hregistered, hseat⟩
      have hnonzero := writerID_ne_zero hnumbered hbefore hseat
      simpa [hwriter, htaken, hnonzero] using hseat
    · obtain rfl := List.mem_singleton.mp hnew
      rw [hwriter, if_pos ⟨hmode, hcan ▸ hwrites⟩]

/-- A promotion moves the seat. -/
theorem seatedWriters_promoteClient (hmode : session.mode = .primaryObserver)
    (hseated : session.SeatedWriters) (id : ℕ) :
    (session.step (.promoteClient id)).SeatedWriters := by
  by_cases hnone : (session.client? id).isNone
  · have hsame : session.step (.promoteClient id) = session := by simp [step, promoteClient, hnone]
    rw [hsame]
    exact hseated
  · have hwriter : (session.step (.promoteClient id)).writerID = id := by
      simp [step, promoteClient, hnone, hmode, onClient]
    intro found hfound hregistered hwrites
    rw [hwriter]
    rcases mem_step.mp hfound with ⟨before, hbefore, rfl⟩ | hnew
    · simp only [after, hnone, hmode, true_and] at hregistered hwrites ⊢
      by_cases hid : before.Is id
      · simpa [hid] using hid.2
      · by_cases hseat : before.Is session.writerID
        · simp [hid, hseat] at hwrites
        · simp only [hid, hseat, if_false] at hregistered hwrites
          exact absurd ⟨hregistered, hseated before hbefore hregistered hwrites⟩ hseat
    · cases hnew

theorem seatedWriters_demoteRemote (hseated : session.SeatedWriters) (remote : String) :
    (session.step (.demoteRemote remote)).SeatedWriters := by
  intro found hfound hregistered hwrites
  rcases mem_step.mp hfound with ⟨before, hbefore, rfl⟩ | hnew
  · cases hremote : session.clientByRemoteIDLocked remote with
    | none =>
      simp only [after, hremote] at hregistered hwrites ⊢
      simpa [step, demoteRemote, hremote] using hseated before hbefore hregistered hwrites
    | some target =>
      simp only [after, hremote] at hregistered hwrites ⊢
      by_cases htarget : before.Is target.id
      · simp [htarget] at hwrites
      · simp only [htarget, if_false] at hregistered hwrites ⊢
        have hseat := hseated before hbefore hregistered hwrites
        have hother : session.writerID ≠ target.id := by
          intro heq
          exact htarget ⟨hregistered, hseat.trans heq⟩
        simpa [step, demoteRemote, hremote, onClient, hother] using hseat
  · cases hnew

theorem seatedWriters_removeClient (hseated : session.SeatedWriters) (id : ℕ) :
    (session.step (.removeClient id)).SeatedWriters := by
  intro found hfound hregistered hwrites
  rcases mem_step.mp hfound with ⟨before, hbefore, rfl⟩ | hnew
  · simp only [after] at hregistered hwrites ⊢
    by_cases hid : before.Is id
    · simp [hid, SessionClient.leave] at hregistered
    · simp only [hid, if_false] at hregistered hwrites ⊢
      have hseat := hseated before hbefore hregistered hwrites
      have hother : session.writerID ≠ id := by
        intro heq
        exact hid ⟨hregistered, hseat.trans heq⟩
      simpa [step, removeClient, onClient, hother] using hseat
  · cases hnew

/-- A step that changes neither the seat nor a permission. -/
theorem seatedWriters_of_unchanged (hseated : session.SeatedWriters)
    (hpromote : ∀ id, action ≠ .promoteClient id) (hdemote : ∀ remote, action ≠ .demoteRemote remote)
    (hadmitted : session.admitted action = [])
    (hwriter : (session.step action).writerID = session.writerID) :
    (session.step action).SeatedWriters := by
  intro found hfound hregistered hwrites
  rcases mem_step.mp hfound with ⟨before, hbefore, rfl⟩ | hnew
  · have hevolves := session.after_evolves action before
    rw [hevolves.id, hwriter]
    rw [canWrite_after hpromote hdemote] at hwrites
    exact hseated before hbefore (hevolves.registered hregistered) hwrites
  · rw [hadmitted] at hnew
    cases hnew

/-- In primary-observer mode every writer has the seat after each step. -/
theorem seatedWriters_step (hnumbered : session.Numbered) (hmode : session.mode = .primaryObserver)
    (haction : ∀ mode, action ≠ .setMode mode) (hseated : session.SeatedWriters) :
    (session.step action).SeatedWriters := by
  cases action with
  | addClient identity remote => exact seatedWriters_addClient hnumbered hmode hseated identity remote
  | removeClient id => exact seatedWriters_removeClient hseated id
  | kickClient id => exact seatedWriters_of_unchanged hseated (by simp) (by simp) rfl rfl
  | promoteClient id => exact seatedWriters_promoteClient hmode hseated id
  | demoteRemote remote => exact seatedWriters_demoteRemote hseated remote
  | applyResizeForRemote remote cols rows =>
    apply seatedWriters_of_unchanged hseated (by simp) (by simp) rfl
    simp only [step, applyResizeForRemote, onClient]
    split <;> rfl
  | setMode mode => exact absurd rfl (haction mode)
  | broadcast chunk => exact seatedWriters_of_unchanged hseated (by simp) (by simp) rfl rfl
  | sendReplay | receive => exact seatedWriters_of_unchanged hseated (by simp) (by simp) rfl rfl
  | shutdown =>
    intro found hfound hregistered hwrites
    rcases mem_step.mp hfound with ⟨before, hbefore, rfl⟩ | hnew
    · simp only [after] at hregistered
      split at hregistered
      · cases hregistered
      · next hleft => exact absurd hregistered hleft
    · cases hnew

/-- In exclusive mode one client at most is registered after each step. -/
theorem oneRegistered_step (hmode : session.mode = .exclusive) (hone : session.OneRegistered) :
    (session.step action).OneRegistered := by
  have hold : ∀ client ∈ session.clients, ∀ other ∈ session.clients,
      (session.after action client).registered = true →
      (session.after action other).registered = true → client = other := by
    intro client hclient other hother hregistered hregistered'
    apply hone client hclient other hother
    · exact (session.after_evolves action client).registered hregistered
    · exact (session.after_evolves action other).registered hregistered'
  -- an admission finds no one registered
  have hnew : ∀ client ∈ session.admitted action, session.admitted action = [client] ∧
      ∀ other ∈ session.clients, (session.after action other).registered = false := by
    intro client hclient
    obtain ⟨identity, remote, added, size, rfl, hadd⟩ := mem_admitted.mp hclient
    refine ⟨by simp [admitted, hadd], ?_⟩
    intro other hother
    obtain ⟨ready, canWrite, hadmission, _⟩ := addClientLocked_eq_some hadd
    simp only [admission, hmode, Option.ite_none_left_eq_some, List.any_eq_true, not_exists,
      not_and] at hadmission
    rw [← Bool.not_eq_true]
    intro hregistered
    exact hadmission.1 other hother ((session.after_evolves _ other).registered hregistered)
  intro client hclient other hother hregistered hregistered'
  rcases mem_step.mp hclient with ⟨before, hbefore, rfl⟩ | hadmitted
  · rcases mem_step.mp hother with ⟨before', hbefore', rfl⟩ | hadmitted'
    · rw [hold before hbefore before' hbefore' hregistered hregistered']
    · rw [(hnew other hadmitted').2 before hbefore] at hregistered
      cases hregistered
  · rcases mem_step.mp hother with ⟨before', hbefore', rfl⟩ | hadmitted'
    · rw [(hnew client hadmitted).2 before' hbefore'] at hregistered'
      cases hregistered'
    · rw [(hnew client hadmitted).1] at hadmitted'
      exact (List.mem_singleton.mp hadmitted').symm

/-- In supersede mode only the newest client is live after each step. -/
theorem newestLive_step (hmode : session.mode = .supersede) (hnewest : session.NewestLive) :
    (session.step action).NewestLive := by
  intro client hclient hregistered hlive
  rcases mem_step.mp hclient with ⟨before, hbefore, rfl⟩ | hadmitted
  · have hevolves := session.after_evolves action before
    have hbeforeLive : before.kicked = false := by
      rw [← Bool.not_eq_true]
      intro hkicked
      rw [hevolves.kicked hkicked] at hlive
      cases hlive
    have hid := hnewest before hbefore (hevolves.registered hregistered) hbeforeLive
    rw [hevolves.id, hid, nextID_step]
    cases hadmitted : session.admitted action with
    | nil => rfl
    | cons new rest =>
      obtain ⟨identity, remote, _, _, rfl, _⟩ := mem_admitted.mp (hadmitted ▸ List.mem_cons_self)
      simp only [after, hmode, true_and] at hregistered hlive
      split at hlive
      · cases hlive
      · next hleft =>
        rw [if_neg hleft] at hregistered
        exact absurd hregistered hleft
  · obtain ⟨identity, remote, added, size, rfl, hadd⟩ := mem_admitted.mp hadmitted
    obtain ⟨_, _, _, _, hnext, _, _, hid, _⟩ := addClientLocked_eq_some hadd
    rw [step_addClient hadd, hid, hnext]

end Steps

/-! ## Whole runs -/

/-- The session after these operations. -/
def ran (mode : Mode) (actions : List SessionAction) : Session :=
  (machine mode).run (start mode) actions

/-- The client was promoted, and has kept the permission since. -/
def PromotedSince (mode : Mode) (actions : List SessionAction) (id : ℕ) : Prop :=
  ∃ before after, actions = before ++ .promoteClient id :: after ∧
    (∃ client ∈ (ran mode before).clients, client.Is id) ∧
    ∀ rest, rest <+: after → ∃ client ∈ (ran mode (before ++ .promoteClient id :: rest)).clients,
      client.id = id ∧ client.canWrite = true

/-- What a session that was started in this mode guarantees after these operations. -/
structure ModeInvariants (mode : Mode) (actions : List SessionAction) : Prop where
  seatedWriters : mode = .primaryObserver → (ran mode actions).SeatedWriters
  oneRegistered : mode = .exclusive → (ran mode actions).OneRegistered
  newestLive : mode = .supersede → (ran mode actions).NewestLive
  /-- The clients are all that were ever admitted; no id is used twice. -/
  numbered : (ran mode actions).Numbered
  kept : ∀ before after, actions = before ++ after →
    (ran mode before).clients.map SessionClient.id <+:
      (ran mode actions).clients.map SessionClient.id
  promoted : ∀ before action after, actions = before ++ action :: after →
    ∀ client ∈ (ran mode before).clients, client.canWrite = false →
      ∀ client' ∈ (ran mode (before ++ [action])).clients, client'.id = client.id →
        client'.canWrite = true → action = .promoteClient client.id
  origin : ∀ client ∈ (ran mode actions).clients, client.canWrite = true →
    client.identity.canWrite = true ∨ PromotedSince mode actions client.id

section Runs

variable {mode : Mode} {actions : List SessionAction}

theorem ran_concat (mode : Mode) (actions : List SessionAction) (action : SessionAction) :
    ran mode (actions ++ [action]) = (ran mode actions).step action := by
  unfold ran
  rw [Machine.run_append]
  rfl

/-- Ids are distinct after any actions. -/
theorem numbered_ran (mode : Mode) (actions : List SessionAction) : (ran mode actions).Numbered := by
  induction actions using List.reverseRecOn with
  | nil => rfl
  | append_singleton actions action ih =>
    rw [ran_concat]
    exact numbered_step ih action

/-- An invariant of one mode, over the operations that do not change the mode. -/
theorem ran_invariant {P : Session → Prop} (hinit : P (start mode))
    (hstep : ∀ session action, session.Numbered → session.mode = mode →
      (∀ mode, action ≠ .setMode mode) → P session → P (session.step action))
    (hactions : ∀ action ∈ actions, ∀ mode, action ≠ .setMode mode) :
    (ran mode actions).mode = mode ∧ P (ran mode actions) := by
  induction actions using List.reverseRecOn with
  | nil => exact ⟨rfl, hinit⟩
  | append_singleton actions action ih =>
    have haction := hactions action (by simp)
    obtain ⟨hmode, hholds⟩ := ih fun other hother ↦ hactions other (by simp [hother])
    rw [ran_concat, mode_step haction]
    exact ⟨hmode, hstep _ action (numbered_ran mode actions) hmode haction hholds⟩

theorem ids_step (session : Session) (action : SessionAction) :
    session.clients.map SessionClient.id <+: (session.step action).clients.map SessionClient.id := by
  rw [clients_step, List.map_append, ids_after]
  exact List.prefix_append ..

theorem ids_ran (mode : Mode) (before after : List SessionAction) :
    (ran mode before).clients.map SessionClient.id <+:
      (ran mode (before ++ after)).clients.map SessionClient.id := by
  induction after using List.reverseRecOn with
  | nil => simp
  | append_singleton after action ih =>
    rw [← List.append_assoc, ran_concat]
    exact ih.trans (ids_step _ action)

theorem promoted_of_step {session : Session} (hnumbered : session.Numbered) {action : SessionAction}
    {client client' : SessionClient} (hclient : client ∈ session.clients)
    (hobserver : client.canWrite = false) (hclient' : client' ∈ (session.step action).clients)
    (hid : client'.id = client.id) (hwriter : client'.canWrite = true) :
    action = .promoteClient client.id := by
  rcases mem_step.mp hclient' with ⟨before, hbefore, rfl⟩ | hadmitted
  · rw [(session.after_evolves action before).id] at hid
    obtain rfl := hnumbered.eq_of_id hbefore hclient hid
    exact (promoted_of_after hobserver hwriter).1
  · obtain ⟨identity, remote, added, size, rfl, hadd⟩ := mem_admitted.mp hadmitted
    obtain ⟨_, _, _, _, _, _, _, hnew, _⟩ := addClientLocked_eq_some hadd
    have := (hnumbered.id_bounds hclient).2
    omega

/-- A client that still writes was promoted since. -/
theorem PromotedSince.concat {id : ℕ} (hsince : PromotedSince mode actions id)
    {action : SessionAction} {client : SessionClient}
    (hclient : client ∈ (ran mode (actions ++ [action])).clients) (hid : client.id = id)
    (hwriter : client.canWrite = true) : PromotedSince mode (actions ++ [action]) id := by
  obtain ⟨before, after, rfl, htarget, hkept⟩ := hsince
  refine ⟨before, after ++ [action], by simp, htarget, ?_⟩
  intro rest hrest
  rcases List.prefix_concat_iff.mp hrest with rfl | hearlier
  · refine ⟨client, ?_, hid, hwriter⟩
    rwa [List.append_assoc, List.cons_append] at hclient
  · exact hkept rest hearlier

/-- Where a write permission comes from. -/
theorem origin_ran (mode : Mode) (actions : List SessionAction) :
    ∀ client ∈ (ran mode actions).clients, client.canWrite = true →
      client.identity.canWrite = true ∨ PromotedSince mode actions client.id := by
  induction actions using List.reverseRecOn with
  | nil =>
    intro client hclient
    cases hclient
  | append_singleton actions action ih =>
    intro client hclient hwriter
    have hstep := hclient
    rw [ran_concat] at hstep
    rcases mem_step.mp hstep with ⟨before, hbefore, rfl⟩ | hadmitted
    · have hevolves := (ran mode actions).after_evolves action before
      rw [hevolves.identity, hevolves.id]
      by_cases hwrote : before.canWrite = true
      · apply (ih before hbefore hwrote).imp_right
        intro hsince
        exact hsince.concat hclient hevolves.id hwriter
      · obtain ⟨rfl, hregistered⟩ := promoted_of_after (Bool.eq_false_iff.mpr hwrote) hwriter
        refine .inr ⟨actions, [], rfl, ⟨before, hbefore, hregistered, rfl⟩, ?_⟩
        intro rest hrest
        rw [List.prefix_nil.mp hrest]
        exact ⟨_, hclient, hevolves.id, hwriter⟩
    · obtain ⟨identity, remote, added, size, rfl, hadd⟩ := mem_admitted.mp hadmitted
      obtain ⟨_, _, hadmission, _, _, _, _, _, hidentity, _, _, _, hcan, _⟩ :=
        addClientLocked_eq_some hadd
      left
      rw [hidentity]
      exact (admission_eq_some hadmission).2.2.2 (hcan ▸ hwriter)

/-- Whatever clients come and go, and whatever is promoted, demoted or kicked, as long as the mode is
not changed: `PrimaryObserver` has no registered writer beside the holder of the seat, `Exclusive` at
most one client and `Supersede` no other live client than the newest; in every mode ids are never used
twice and permissions come from the identity or from a promotion that still stands. -/
theorem modeInvariants (mode : Mode) (actions : List SessionAction)
    (hactions : ∀ action ∈ actions, ∀ mode, action ≠ .setMode mode) : ModeInvariants mode actions where
  seatedWriters := by
    rintro rfl
    refine (ran_invariant (P := SeatedWriters) (by simp [SeatedWriters, start]) ?_ hactions).2
    intro session action hnumbered hmode haction hseated
    exact seatedWriters_step hnumbered hmode haction hseated
  oneRegistered := by
    rintro rfl
    refine (ran_invariant (P := OneRegistered) (by simp [OneRegistered, start]) ?_ hactions).2
    intro session action _ hmode _ hone
    exact oneRegistered_step hmode hone
  newestLive := by
    rintro rfl
    refine (ran_invariant (P := NewestLive) (by simp [NewestLive, start]) ?_ hactions).2
    intro session action _ hmode _ hnewest
    exact newestLive_step hmode hnewest
  numbered := numbered_ran mode actions
  kept := by
    rintro before after rfl
    exact ids_ran mode before after
  promoted := by
    rintro before action after rfl client hclient hobserver client' hclient' hid hwriter
    rw [ran_concat] at hclient'
    exact promoted_of_step (numbered_ran mode before) hclient hobserver hclient' hid hwriter
  origin := origin_ran mode actions

end Runs

/-- This client writes, and no other registered one does. -/
def SoleWriter (session : Session) (id : ℕ) : Prop :=
  (∃ client ∈ session.clients, client.Is id ∧ client.canWrite = true) ∧
    ∀ client ∈ session.clients, client.registered = true → client.canWrite = true → client.id = id

instance (session : Session) (id : ℕ) : Decidable (session.SoleWriter id) :=
  inferInstanceAs (Decidable (_ ∧ _))

/-- Every registered writer but the one to be promoted holds the seat. -/
def OthersSeated (session : Session) (id : ℕ) : Prop :=
  ∀ client ∈ session.clients, client.registered = true → client.canWrite = true →
    client.id = id ∨ client.id = session.writerID

section Promotion

variable {session : Session} {id : ℕ}

theorem writerID_promoteClient (hmode : session.mode = .primaryObserver)
    (hpromoted : (session.promoteClient id).2 = true) : (session.promoteClient id).1.writerID = id := by
  unfold promoteClient at hpromoted ⊢
  split_ifs at hpromoted ⊢ <;> rfl

theorem exists_of_promoteClient (hpromoted : (session.promoteClient id).2 = true) :
    ∃ client ∈ session.clients, client.Is id := by
  by_contra hmissing
  have hnone : (session.client? id).isNone := by
    rw [client?_isNone]
    exact fun client hclient his ↦ hmissing ⟨client, hclient, his⟩
  simp [promoteClient, hnone] at hpromoted

/-- A promotion in `PrimaryObserver` demotes the holder of the seat, whoever else writes: it leaves a
sole writer exactly if there is no writer beside the seat. -/
theorem promoteClient_soleWriter_iff (hmode : session.mode = .primaryObserver)
    (hpromoted : (session.promoteClient id).2 = true) :
    ((session.promoteClient id).1.SoleWriter id ∧ (session.promoteClient id).1.writerID = id) ↔
      session.OthersSeated id := by
  obtain ⟨target, htarget, hid⟩ := exists_of_promoteClient hpromoted
  have hsome : ¬ (session.client? id).isNone := by
    rw [client?_isNone]
    exact fun hnone ↦ hnone target htarget hid
  have hafter : ∀ client, session.after (.promoteClient id) client =
      if client.Is id then { client with canWrite := true }
      else if client.Is session.writerID then { client with canWrite := false } else client := by
    intro client
    simp [after, hsome, hmode]
  have hclients : ∀ client, client ∈ (session.promoteClient id).1.clients ↔
      ∃ before ∈ session.clients, session.after (.promoteClient id) before = client := by
    intro client
    change client ∈ (session.step (.promoteClient id)).clients ↔ _
    rw [mem_step]
    simp [admitted]
  constructor
  · rintro ⟨⟨_, hsole⟩, _⟩ client hclient hregistered hwrites
    by_contra hother
    rw [not_or] at hother
    have hsame : session.after (.promoteClient id) client = client := by
      rw [hafter, if_neg fun his ↦ hother.1 his.2, if_neg fun his ↦ hother.2 his.2]
    exact hother.1 (hsole client ((hclients client).mpr ⟨client, hclient, hsame⟩) hregistered hwrites)
  · intro hseated
    refine ⟨⟨⟨{ target with canWrite := true }, ?_, hid, rfl⟩, ?_⟩, writerID_promoteClient hmode hpromoted⟩
    · rw [hclients]
      exact ⟨target, htarget, by rw [hafter, if_pos hid]⟩
    · intro client hclient hregistered hwrites
      obtain ⟨before, hbefore, rfl⟩ := (hclients client).mp hclient
      have hevolves := session.after_evolves (.promoteClient id) before
      rw [hevolves.id]
      rw [hafter] at hwrites
      split_ifs at hwrites with his hseat
      · exact his.2
      · have hregistered' := hevolves.registered hregistered
        rcases hseated before hbefore hregistered' hwrites with htarget' | hwriter
        · exact htarget'
        · exact absurd ⟨hregistered', hwriter⟩ hseat

end Promotion

theorem reachable_ran (mode : Mode) (actions : List SessionAction) :
    (machine mode).Reachable (ran mode actions) := by
  induction actions using List.reverseRecOn with
  | nil => exact .init
  | append_singleton actions action ih =>
    rw [ran_concat]
    exact ih.step trivial

end Session

section Example

/-- Two writers attach, the second one as an observer, who is then promoted. -/
def exampleSeats : List SessionAction :=
  [.addClient exampleWriter "alpha", .addClient exampleWriter "beta", .promoteClient 2]

theorem modeInvariants_example :
    (Session.ran .primaryObserver exampleSeats).clients.map SessionClient.canWrite = [false, true] ∧
      Session.ModeInvariants .primaryObserver exampleSeats :=
  ⟨by decide, Session.modeInvariants .primaryObserver exampleSeats (by simp [exampleSeats])⟩

/-- The first client takes the seat back. -/
theorem promoteClient_soleWriter_example :
    (((Session.ran .primaryObserver exampleSeats).promoteClient 1).1.SoleWriter 1 ∧
        ((Session.ran .primaryObserver exampleSeats).promoteClient 1).1.writerID = 1) ↔
      (Session.ran .primaryObserver exampleSeats).OthersSeated 1 :=
  Session.promoteClient_soleWriter_iff (by decide) (by decide)

/-- Two writers attach in `MultiWrite`, and the mode is changed to `PrimaryObserver`. -/
def exampleMixed : Session :=
  .ran .multiWrite
    [.addClient exampleWriter "alpha", .addClient exampleWriter "beta", .setMode .primaryObserver]

/-- After a change of the mode, a promotion can leave a second writer. -/
theorem promotion_leaves_second_writer :
    (Session.machine .multiWrite).Reachable exampleMixed ∧ exampleMixed.mode = .primaryObserver ∧
      (exampleMixed.promoteClient 1).2 = true ∧ ¬ (exampleMixed.promoteClient 1).1.SoleWriter 1 :=
  ⟨Session.reachable_ran .multiWrite _, by decide, by decide, by decide⟩

end Example

end Mosey.Vterm
