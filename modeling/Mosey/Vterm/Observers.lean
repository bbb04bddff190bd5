import Mosey.Vterm.Control
import Mosey.Vterm.Input

/-!
# What an observer can do to the child

An observer is a registered client without write permission, and a remote observes while all of its
clients do. Its input is discarded, but the permission that gates its signals is the one its identity
was given, and the reports of observers count for the minimum like those of writers.
-/

namespace Mosey.Vterm

open Library Auth

/-- A registered client that may not write. -/
def SessionClient.Observer (client : SessionClient) : Prop :=
  client.registered = true ∧ client.canWrite = false

instance (client : SessionClient) : Decidable client.Observer := inferInstanceAs (Decidable (_ ∧ _))

namespace Session

/-- Every registered client of this remote is an observer. -/
def Observes (session : Session) (remote : String) : Prop :=
  ∀ client ∈ session.clients, client.registered = true → client.remote = remote → client.canWrite = false

instance (session : Session) (remote : String) : Decidable (session.Observes remote) :=
  inferInstanceAs (Decidable (∀ client ∈ session.clients, _))

/-- The sessions differ at most in the geometry that observers reported. -/
structure SameButObservers (session other : Session) : Prop where
  mode : other.mode = session.mode
  nextID : other.nextID = session.nextID
  writerID : other.writerID = session.writerID
  pendingResize : other.pendingResize = session.pendingResize
  clients : List.Forall₂ (fun before after ↦ after = before ∨
    before.Observer ∧ ∃ cols rows, after = { before with cols := cols, rows := rows })
    session.clients other.clients

/-- Writers alone hold the minimum at one column and one row, so that no report can lower it. -/
def LeastByWriters (session : Session) : Prop :=
  (∃ client ∈ session.reported, client.canWrite = true ∧ client.cols = 1) ∧
    ∃ client ∈ session.reported, client.canWrite = true ∧ client.rows = 1

instance (session : Session) : Decidable session.LeastByWriters := inferInstanceAs (Decidable (_ ∧ _))

variable {session other : Session}

theorem minGeometryLocked_eq_one (hcols : ∃ client ∈ session.reported, client.cols = 1)
    (hrows : ∃ client ∈ session.reported, client.rows = 1) :
    session.minGeometryLocked = (1, 1) := by
  obtain ⟨narrow, hnarrow, hcols⟩ := hcols
  obtain ⟨short, hshort, hrows⟩ := hrows
  have hreported : session.reported ≠ [] := List.ne_nil_of_mem hnarrow
  have hminimum := isMinimum_minGeometryLocked hreported
  have hne := minGeometryLocked_ne_zero hreported
  have hfirst := hminimum.cols_least.2 ⟨narrow, hnarrow, rfl⟩
  have hsecond := hminimum.rows_least.2 ⟨short, hshort, rfl⟩
  rw [hcols] at hfirst
  rw [hrows] at hsecond
  have hone : ∀ size : UInt32, size ≠ 0 → size.toNat ≤ (1 : UInt32).toNat → size = 1 := by
    intro size hsize hle
    have hpositive : size.toNat ≠ 0 := fun hzero ↦ hsize (UInt32.toNat_inj.mp hzero)
    apply UInt32.toNat_inj.mp
    have hvalue : (1 : UInt32).toNat = 1 := rfl
    omega
  exact Prod.ext (hone _ hne.1 hfirst) (hone _ hne.2 hsecond)

theorem SameButObservers.getElem_eq (hsame : session.SameButObservers other) {index : ℕ}
    (hindex : index < session.clients.length) (hindex' : index < other.clients.length)
    (hwriter : ¬ session.clients[index].Observer) :
    other.clients[index] = session.clients[index] := by
  rcases (List.forall₂_iff_get.mp hsame.clients).2 index hindex hindex' with heq | ⟨hobserver, _⟩
  · exact heq
  · exact absurd hobserver hwriter

theorem SameButObservers.mem_of_writer (hsame : session.SameButObservers other)
    {client : SessionClient} (hclient : client ∈ session.reported) (hwriter : client.canWrite = true) :
    client ∈ other.reported := by
  rw [mem_reported] at hclient ⊢
  refine ⟨?_, hclient.2⟩
  obtain ⟨index, hindex, rfl⟩ := List.getElem_of_mem hclient.1
  have hindex' : index < other.clients.length := hsame.clients.length_eq ▸ hindex
  have hnot : ¬ session.clients[index].Observer := by
    intro hobserver
    rw [hobserver.2] at hwriter
    cases hwriter
  rw [← hsame.getElem_eq hindex hindex' hnot]
  exact List.getElem_mem _

theorem SameButObservers.minGeometryLocked_eq (hsame : session.SameButObservers other)
    (hleast : session.LeastByWriters) : other.minGeometryLocked = (1, 1) := by
  obtain ⟨⟨narrow, hnarrow, hwriter, hcols⟩, short, hshort, hwriter', hrows⟩ := hleast
  exact minGeometryLocked_eq_one ⟨narrow, hsame.mem_of_writer hnarrow hwriter, hcols⟩
    ⟨short, hsame.mem_of_writer hshort hwriter', hrows⟩

theorem sameButObservers_refl (session : Session) : session.SameButObservers session :=
  ⟨rfl, rfl, rfl, rfl, List.forall₂_same.mpr fun _ _ ↦ .inl rfl⟩

/-- Without an observer there is no other state to compare with. -/
theorem SameButObservers.eq_of_no_observer (hsame : session.SameButObservers other)
    (hnone : ∀ client ∈ session.clients, ¬ client.Observer) : other.clients = session.clients := by
  apply List.ext_getElem hsame.clients.length_eq.symm
  intro index hindex' hindex
  exact hsame.getElem_eq hindex hindex' (hnone _ (List.getElem_mem _))

/-- The session with the same geometry reported by every observer. -/
def observersAt (session : Session) (cols rows : UInt32) : Session :=
  { session with
    clients := session.clients.map fun client ↦
      if client.Observer then { client with cols := cols, rows := rows } else client }

theorem sameButObservers_observersAt (session : Session) (cols rows : UInt32) :
    session.SameButObservers (session.observersAt cols rows) := by
  refine ⟨rfl, rfl, rfl, rfl, ?_⟩
  unfold observersAt
  rw [List.forall₂_map_right_iff]
  refine List.forall₂_same.mpr fun client _ ↦ ?_
  by_cases hobserver : client.Observer
  · exact .inr ⟨hobserver, cols, rows, by simp [hobserver]⟩
  · exact .inl (by simp [hobserver])

/-- One observer at 1×1 brings the minimum down. -/
theorem minGeometryLocked_observersAt_one {observer : SessionClient}
    (hmem : observer ∈ session.clients) (hobserver : observer.Observer) :
    (session.observersAt 1 1).minGeometryLocked = (1, 1) := by
  have hreported : { observer with cols := 1, rows := 1 } ∈ (session.observersAt 1 1).reported := by
    rw [mem_reported]
    refine ⟨List.mem_map.mpr ⟨observer, hmem, by simp [hobserver]⟩, hobserver.1, by simp, by simp⟩
  exact minGeometryLocked_eq_one ⟨_, hreported, rfl⟩ ⟨_, hreported, rfl⟩

/-- When the observers fall silent, the reports left are those of writers. -/
theorem writer_of_mem_reported_observersAt {client : SessionClient}
    (hclient : client ∈ (session.observersAt 0 0).reported) :
    client ∈ session.reported ∧ client.canWrite = true := by
  rw [mem_reported] at hclient ⊢
  obtain ⟨before, hbefore, rfl⟩ := List.mem_map.mp hclient.1
  by_cases hobserves : before.Observer
  · simp [hobserves, SessionClient.Reports] at hclient
  · simp only [hobserves, if_false] at hclient ⊢
    refine ⟨⟨hbefore, hclient.2⟩, ?_⟩
    by_contra hcannot
    exact hobserves ⟨hclient.2.1, by simpa using hcannot⟩

/-- Observers have no influence on the minimum exactly if there are none or it cannot get lower. -/
theorem sameButObservers_minimum_iff :
    (∀ other, session.SameButObservers other →
        other.minGeometryLocked = session.minGeometryLocked) ↔
      (∀ client ∈ session.clients, ¬ client.Observer) ∨ session.LeastByWriters := by
  constructor
  · intro hsame
    by_cases hnone : ∀ client ∈ session.clients, ¬ client.Observer
    · exact .inl hnone
    right
    obtain ⟨observer, hmem, hobserver⟩ : ∃ client ∈ session.clients, client.Observer := by
      simpa using hnone
    -- what the observers can bring down to 1×1 the writers alone must hold there
    have hsilent : (session.observersAt 0 0).minGeometryLocked = (1, 1) := by
      rw [hsame _ (session.sameButObservers_observersAt 0 0),
        ← hsame _ (session.sameButObservers_observersAt 1 1),
        minGeometryLocked_observersAt_one hmem hobserver]
    have hreported : (session.observersAt 0 0).reported ≠ [] := by
      intro hnil
      rw [minGeometryLocked_of_reported_nil hnil] at hsilent
      cases hsilent
    obtain ⟨⟨⟨narrow, hnarrow, hcols⟩, _⟩, ⟨short, hshort, hrows⟩, _⟩ :=
      isMinimum_minGeometryLocked hreported
    rw [hsilent] at hcols hrows
    obtain ⟨hnarrow, hnarrowWrites⟩ := writer_of_mem_reported_observersAt hnarrow
    obtain ⟨hshort, hshortWrites⟩ := writer_of_mem_reported_observersAt hshort
    exact ⟨⟨narrow, hnarrow, hnarrowWrites, UInt32.toNat_inj.mp hcols⟩,
      short, hshort, hshortWrites, UInt32.toNat_inj.mp hrows⟩
  · rintro (hnone | hleast) other hsame
    · have hclients := hsame.eq_of_no_observer hnone
      unfold minGeometryLocked
      rw [hclients]
    · rw [hsame.minGeometryLocked_eq hleast,
        (session.sameButObservers_refl).minGeometryLocked_eq hleast]

variable {started : Bool} {remote : String} {identity : Identity}

theorem minGeometryLocked_of_clients (hclients : other.clients = session.clients) :
    other.minGeometryLocked = session.minGeometryLocked := by
  unfold minGeometryLocked
  rw [hclients]

/-- Only an admission, a departure, a resize or the shutdown changes the minimum. -/
theorem minGeometryLocked_step {action : SessionAction} (hadmitted : session.admitted action = [])
    (hremove : ∀ id, action ≠ .removeClient id)
    (hresize : ∀ remote cols rows, action ≠ .applyResizeForRemote remote cols rows)
    (hshutdown : action ≠ .shutdown) :
    (session.step action).minGeometryLocked = session.minGeometryLocked :=
  minGeometryLocked_step_of_sameReport
    (fun client _ ↦ (session.change_after action client).sameReport hremove hresize hshutdown)
    (by simp [hadmitted])

/-- A resize is the only message that can change the minimum. -/
theorem minGeometryLocked_handleControl (message : ControlMessage)
    (hresize : ∀ cols rows, (session.applyResizeForRemote remote cols rows).1.minGeometryLocked =
      session.minGeometryLocked) :
    (session.handleControl started remote identity message).1.minGeometryLocked =
      session.minGeometryLocked := by
  have hhandled := session.handled_handleControl started remote identity message
  generalize session.handleControl started remote identity message = result at hhandled
  cases hhandled with
  | ignored | listed | signalled => rfl
  | @resized cols rows _ => exact hresize cols rows
  | demoted => exact minGeometryLocked_step rfl (by simp) (by simp) (by simp)
  | managed _ haction =>
    rcases haction with ⟨mode, rfl⟩ | ⟨id, rfl⟩ | ⟨id, rfl⟩ <;>
      exact minGeometryLocked_step rfl (by simp) (by simp) (by simp)

theorem applyResizeForRemote_size (session : Session) (remote : String) (cols rows : UInt32) :
    (session.applyResizeForRemote remote cols rows).2 = (0, 0) ∨
      (session.applyResizeForRemote remote cols rows).2 =
        (session.applyResizeForRemote remote cols rows).1.minGeometryLocked := by
  unfold applyResizeForRemote
  split
  · exact .inl rfl
  · dsimp only
    split_ifs
    · exact .inl rfl
    · exact .inr rfl

/-- The size a message sets is the minimum it leaves. -/
theorem setSize_handleControl {message : ControlMessage} {cols rows : UInt16}
    (heffect : .setSize cols rows ∈ (session.handleControl started remote identity message).2) :
    (cols, rows) =
      applyPTYSize (session.handleControl started remote identity message).1.minGeometryLocked := by
  have hhandled := session.handled_handleControl started remote identity message
  generalize session.handleControl started remote identity message = result at hhandled heffect
  cases hhandled with
  | @resized newCols newRows _ =>
    rcases session.applyResizeForRemote_size remote newCols newRows with hzero | hsize
    · simp [hzero, resizeEffects] at heffect
    · rw [← hsize]
      unfold resizeEffects at heffect
      split_ifs at heffect
      · simp at heffect
      · simpa [Prod.ext_iff] using heffect
  | _ => simp at heffect

/-- A signal is sent for an identity that may write, whatever its client may do. -/
theorem signal_handleControl_iff :
    (∀ message signal, .signal signal ∉ (session.handleControl started remote identity message).2) ↔
      (started = true → identity.canWrite = false) := by
  constructor
  · intro hnone hstarted
    by_contra hcan
    apply hnone (.signal 2) .int
    simp [handleControl, hcan, applySignal, hstarted]
  · intro hdenied message signal heffect
    have hhandled := session.handled_handleControl started remote identity message
    generalize session.handleControl started remote identity message = result at hhandled heffect
    cases hhandled with
    | signalled hwrite hstarted =>
      rw [hdenied hstarted] at hwrite
      cases hwrite
    | resized _ =>
      unfold resizeEffects at heffect
      split_ifs at heffect <;> simp at heffect
    | _ => simp at heffect

/-- A resize of an observing remote changes the geometry of an observer. -/
theorem minGeometryLocked_resize (hnumbered : session.Numbered) (hobserves : session.Observes remote)
    (hsame : ∀ other, session.SameButObservers other →
      other.minGeometryLocked = session.minGeometryLocked) (cols rows : UInt32) :
    (session.applyResizeForRemote remote cols rows).1.minGeometryLocked =
      session.minGeometryLocked := by
  cases hfound : session.clientByRemoteIDLocked remote with
  | none =>
    simp only [applyResizeForRemote, hfound]
    exact minGeometryLocked_of_clients rfl
  | some found =>
    apply hsame
    simp only [applyResizeForRemote, hfound]
    refine ⟨rfl, rfl, rfl, rfl, ?_⟩
    unfold onClient
    rw [List.forall₂_map_right_iff]
    refine List.forall₂_same.mpr fun client hclient ↦ ?_
    by_cases his : client.Is found.id
    · right
      have hlatest := hnumbered.isLatest_of_is hfound hclient his
      have hobserver : client.Observer :=
        ⟨hlatest.registered, hobserves client hclient hlatest.registered hlatest.remote_eq⟩
      exact ⟨hobserver, cols, rows, by simp [his]⟩
    · exact .inl (by simp [his])

end Session

namespace InputRun

variable {mode : Mode} {state : InputRun} {remote : String} {client : SessionClient}

/-- The steps of the input pumps of this remote's clients. -/
def PumpsOf (state : InputRun) (remote : String) (action : InputAction) : Prop :=
  ∃ client ∈ state.session.clients, client.remote = remote ∧
    ((∃ chunk, action = .read client.id chunk) ∨ action = .sample client.id ∨
      action = .write client.id ∨ action = .fail client.id)

/-- The pump of a client has nothing to write, and will not get a permission to. -/
def Drained (state : InputRun) (client : SessionClient) : Prop :=
  state.writing client.id = false ∧ (client.canWrite = true → state.pumps client.id = .stopped)

theorem samples_eq (hnumbered : state.session.Numbered) (hclient : client ∈ state.session.clients) :
    state.session.samples client.id = client.canWrite := by
  unfold Session.samples
  cases hcan : client.canWrite with
  | false =>
    rw [List.any_eq_false]
    intro other hother
    simp only [Bool.and_eq_true, decide_eq_true_eq, not_and]
    intro hid
    rw [hnumbered.eq_of_id hother hclient hid, hcan]
    decide
  | true =>
    rw [List.any_eq_true]
    exact ⟨client, hclient, by simp [hcan]⟩

/-- A pump that is not drained can put a chunk on the PTY. -/
theorem exists_written (hnumbered : state.session.Numbered) (hclient : client ∈ state.session.clients)
    (hremote : client.remote = remote) (hactive : ¬ state.Drained client) :
    ∃ actions, (machine mode).Legal state actions ∧
      (∀ action ∈ actions, state.PumpsOf remote action) ∧
      ((machine mode).run state actions).pty ≠ state.pty := by
  have hread : state.PumpsOf remote (.read client.id [0]) :=
    ⟨client, hclient, hremote, .inl ⟨[0], rfl⟩⟩
  have hsample : state.PumpsOf remote (.sample client.id) :=
    ⟨client, hclient, hremote, .inr (.inl rfl)⟩
  have hwrite : state.PumpsOf remote (.write client.id) :=
    ⟨client, hclient, hremote, .inr (.inr (.inl rfl))⟩
  have hsamples := samples_eq hnumbered hclient
  have hpresent : ∃ other ∈ state.session.clients, other.id = client.id := ⟨client, hclient, rfl⟩
  unfold Drained at hactive
  cases hstage : state.pumps client.id with
  | stopped => simp [writing, hstage] at hactive
  | idle =>
    have hcan : client.canWrite = true := by simpa [writing, hstage] using hactive
    refine ⟨[.read client.id [0], .sample client.id, .write client.id], ?_, ?_, ?_⟩
    · exact ⟨⟨by simp, hstage, hpresent⟩, trivial, trivial, trivial⟩
    · simp [hread, hsample, hwrite]
    · simp [machine, step, hsamples, hcan]
  | read chunk =>
    have hcan : client.canWrite = true := by simpa [writing, hstage] using hactive
    refine ⟨[.sample client.id, .write client.id], ⟨trivial, trivial, trivial⟩, ?_, ?_⟩
    · simp [hsample, hwrite]
    · simp [machine, step, hstage, hsamples, hcan]
  | sampled chunk canWrite =>
    cases canWrite with
    | true =>
      refine ⟨[.write client.id], ⟨trivial, trivial⟩, by simp [hwrite], ?_⟩
      simp [machine, step, hstage]
    | false =>
      have hcan : client.canWrite = true := by simpa [writing, hstage] using hactive
      refine ⟨[.write client.id, .read client.id [0], .sample client.id, .write client.id], ?_, ?_, ?_⟩
      · refine ⟨trivial, ⟨by simp, ?_, ?_⟩, trivial, trivial, trivial⟩
        · simp [machine, step, hstage]
        · simpa [machine, step, hstage] using hpresent
      · simp [hread, hsample, hwrite]
      · simp [machine, step, hstage, hsamples, hcan]

/-- A drained pump moves without writing. -/
theorem step_of_drained (hnumbered : state.session.Numbered) (hclient : client ∈ state.session.clients)
    (hdrained : state.Drained client) {action : InputAction} (hallowed : state.allowed action)
    (hpump : (∃ chunk, action = .read client.id chunk) ∨ action = .sample client.id ∨
      action = .write client.id ∨ action = .fail client.id) :
    state.step action = state ∨ ∃ stage,
      state.step action = { state with pumps := Function.update state.pumps client.id stage } ∧
        (∀ chunk, stage ≠ .sampled chunk true) ∧ (client.canWrite = true → stage = .stopped) := by
  have hcannot : state.pumps client.id ≠ .stopped → client.canWrite ≠ true :=
    fun hrunning hcan ↦ hrunning (hdrained.2 hcan)
  rcases hpump with ⟨chunk, rfl⟩ | rfl | rfl | rfl
  · right
    have hidle : state.pumps client.id = .idle := hallowed.2.1
    refine ⟨.read chunk, rfl, by simp, fun hcan ↦ ?_⟩
    exact absurd hcan (hcannot (by simp [hidle]))
  · cases hstage : state.pumps client.id with
    | read chunk =>
      right
      have hfalse : client.canWrite = false := by simpa using hcannot (by simp [hstage])
      refine ⟨.sampled chunk false, ?_, by simp, fun hcan ↦ ?_⟩
      · simp [step, hstage, samples_eq hnumbered hclient, hfalse]
      · rw [hfalse] at hcan
        cases hcan
    | _ => simp [step, hstage]
  · cases hstage : state.pumps client.id with
    | sampled chunk canWrite =>
      right
      have hfalse : canWrite = false := by simpa [writing, hstage] using hdrained.1
      refine ⟨.idle, by simp [step, hstage, hfalse], by simp, fun hcan ↦ ?_⟩
      exact absurd hcan (hcannot (by simp [hstage]))
    | _ => simp [step, hstage]
  · exact .inr ⟨.stopped, rfl, by simp, fun _ ↦ rfl⟩

theorem drained_update (hnumbered : state.session.Numbered) (hclient : client ∈ state.session.clients)
    {stage : PumpStage} (hstage : ∀ chunk, stage ≠ .sampled chunk true)
    (hstopped : client.canWrite = true → stage = .stopped) {other : SessionClient}
    (hother : other ∈ state.session.clients) (hdrained : state.Drained other) :
    Drained { state with pumps := Function.update state.pumps client.id stage } other := by
  by_cases hid : other.id = client.id
  · obtain rfl := hnumbered.eq_of_id hother hclient hid
    refine ⟨?_, fun hcan ↦ by simp [hstopped hcan]⟩
    rw [Bool.eq_false_iff]
    intro hwriting
    rcases writing_update hwriting with ⟨_, chunk, hsampled⟩ | hbefore
    · exact hstage chunk hsampled
    · rw [hdrained.1] at hbefore
      cases hbefore
  · simpa [Drained, writing, hid] using hdrained

/-- The pumps of a remote write nothing exactly if all of them are drained. -/
theorem input_discarded_iff (hnumbered : state.session.Numbered) :
    (∀ actions, (machine mode).Legal state actions →
        (∀ action ∈ actions, state.PumpsOf remote action) →
        ((machine mode).run state actions).pty = state.pty) ↔
      ∀ client ∈ state.session.clients, client.remote = remote → state.Drained client := by
  constructor
  · intro hdiscarded client hclient hremote
    by_contra hactive
    obtain ⟨actions, hlegal, hpumps, hwritten⟩ :=
      exists_written hnumbered hclient hremote hactive
    exact hwritten (hdiscarded actions hlegal hpumps)
  · intro hdrained actions hlegal hpumps
    induction actions generalizing state with
    | nil => rfl
    | cons action rest ih =>
      obtain ⟨client, hclient, hremote, hpump⟩ := hpumps action List.mem_cons_self
      have hrest := fun action haction ↦ hpumps action (List.mem_cons_of_mem _ haction)
      have hlegal' : (machine mode).Legal (state.step action) rest := hlegal.2
      change ((machine mode).run (state.step action) rest).pty = state.pty
      rcases step_of_drained hnumbered hclient (hdrained client hclient hremote) hlegal.1 hpump with
        hsame | ⟨stage, hstep, hstage, hstopped⟩
      · rw [hsame] at hlegal' ⊢
        exact ih hnumbered hdrained hlegal' hrest
      · rw [hstep] at hlegal' ⊢
        refine ih hnumbered (fun other hother hremote' ↦ ?_) hlegal' hrest
        exact drained_update hnumbered hclient hstage hstopped hother (hdrained other hother hremote')

end InputRun

/-! ## Observers -/

/-- Nothing that an observing remote sends reaches the child, and its geometry has no part in the size
of the PTY. -/
structure Harmless (mode : Mode) (started : Bool) (state : InputRun) (remote : String)
    (identity : Identity) : Prop where
  input : ∀ actions, (InputRun.machine mode).Legal state actions →
    (∀ action ∈ actions, state.PumpsOf remote action) →
    ((InputRun.machine mode).run state actions).pty = state.pty
  signal : ∀ message signal,
    .signal signal ∉ (state.session.handleControl started remote identity message).2
  size : ∀ message,
    (state.session.handleControl started remote identity message).1.minGeometryLocked =
      state.session.minGeometryLocked
  setSize : ∀ message cols rows,
    .setSize cols rows ∈ (state.session.handleControl started remote identity message).2 →
      (cols, rows) = applyPTYSize state.session.minGeometryLocked
  geometry : ∀ other, state.session.SameButObservers other →
    other.minGeometryLocked = state.session.minGeometryLocked

/-- An observing remote is harmless exactly if its identity may not write, its pumps are drained and no
observer's report could lower the minimum. -/
theorem harmless_iff {mode : Mode} {state : InputRun}
    (hreach : (InputRun.machine mode).Reachable state) (started : Bool) {remote : String}
    (hobserves : state.session.Observes remote) (identity : Identity) :
    Harmless mode started state remote identity ↔
      (∀ client ∈ state.session.clients, client.remote = remote → state.Drained client) ∧
        (started = true → identity.canWrite = false) ∧
        ((∀ client ∈ state.session.clients, ¬ client.Observer) ∨ state.session.LeastByWriters) := by
  have hnumbered : state.session.Numbered :=
    hreach.invariant (P := fun state ↦ state.session.Numbered) rfl
      fun _ action _ hnumbered _ ↦ InputRun.numbered_step hnumbered action
  constructor
  · intro hharmless
    exact ⟨(InputRun.input_discarded_iff hnumbered).mp hharmless.input,
      Session.signal_handleControl_iff.mp hharmless.signal,
      Session.sameButObservers_minimum_iff.mp hharmless.geometry⟩
  · rintro ⟨hdrained, hidentity, hleast⟩
    have hgeometry := Session.sameButObservers_minimum_iff.mpr hleast
    have hsize : ∀ message,
        (state.session.handleControl started remote identity message).1.minGeometryLocked =
          state.session.minGeometryLocked := fun message ↦
      Session.minGeometryLocked_handleControl message
        (Session.minGeometryLocked_resize hnumbered hobserves hgeometry)
    refine ⟨(InputRun.input_discarded_iff hnumbered).mpr hdrained,
      Session.signal_handleControl_iff.mpr hidentity, hsize, fun message cols rows heffect ↦ ?_,
      hgeometry⟩
    rw [← hsize message]
    exact Session.setSize_handleControl heffect

section Example

def exampleReader : Identity := ⟨"reader", ⟨false, false, true⟩⟩

/-- A writer whose terminal cannot be smaller, and a reader. -/
def exampleSmallest : InputRun :=
  (InputRun.machine .multiWrite).run (InputRun.machine .multiWrite).init
    [.session (.addClient exampleWriter "alpha"), .session (.applyResizeForRemote "alpha" 1 1),
      .session (.addClient exampleReader "beta"), .read 2 [97]]

theorem harmless_example :
    Harmless .multiWrite true exampleSmallest "beta" exampleReader := by
  refine (harmless_iff ?_ true (by decide +kernel) exampleReader).mpr ⟨?_, by decide +kernel, ?_⟩
  · exact Machine.Reachable.init.run (by decide +kernel)
  · unfold InputRun.Drained
    decide +kernel
  · exact .inr (by decide +kernel)

/-- Two writers attach in `PrimaryObserver`, so that the second one is seated as an observer. -/
def exampleSeated : InputRun :=
  (InputRun.machine .primaryObserver).run (InputRun.machine .primaryObserver).init
    [.session (.addClient exampleWriter "alpha"), .session (.applyResizeForRemote "alpha" 100 40),
      .session (.addClient exampleWriter "beta")]

/-- An observer's control messages can reach the child process. -/
theorem observer_affects_child :
    (InputRun.machine .primaryObserver).Reachable exampleSeated ∧
      exampleSeated.session.Observes "beta" ∧
      .signal .int ∈ (exampleSeated.session.handleControl true "beta" exampleWriter (.signal 2)).2 ∧
      exampleSeated.session.minGeometryLocked = (100, 40) ∧
      .setSize 40 10 ∈ (exampleSeated.session.handleControl true "beta" exampleWriter (.resize 40 10)).2 ∧
      ¬ Harmless .primaryObserver true exampleSeated "beta" exampleWriter := by
  have hsignal : .signal .int ∈
      (exampleSeated.session.handleControl true "beta" exampleWriter (.signal 2)).2 := by
    decide +kernel
  refine ⟨Machine.Reachable.init.run (by decide +kernel), by decide +kernel, hsignal,
    by decide +kernel, by decide +kernel, fun hharmless ↦ ?_⟩
  exact hharmless.signal (.signal 2) .int hsignal

end Example

end Mosey.Vterm
