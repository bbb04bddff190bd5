import Mathlib.Order.Bounds.Basic
import Mosey.Vterm.Control
import Mosey.Vterm.Geometry

/-!
# Resizes, attaches and the size of the window

A resize that comes before the attach of its remote waits in `pendingResize` and is recorded by the
attach, so the two can come in either order. The size that is requested is the minimum over the reports;
the window gets its low sixteen bits only.
-/

namespace Mosey.Vterm

open Library Auth

namespace Session

variable {session : Session} {identity : Identity} {remote : String} {cols rows : UInt32}

/-- No client of this remote is registered. -/
def Absent (session : Session) (remote : String) : Prop :=
  ∀ client ∈ session.clients, client.registered = true → client.remote ≠ remote

instance (session : Session) (remote : String) : Decidable (session.Absent remote) :=
  inferInstanceAs (Decidable (∀ client ∈ _, _ → _))

theorem clientByRemoteIDLocked_eq_none (habsent : session.Absent remote) :
    session.clientByRemoteIDLocked remote = none := by
  cases hfound : session.clientByRemoteIDLocked remote with
  | none => rfl
  | some found =>
    have hlatest := isLatest_of_clientByRemoteIDLocked hfound
    exact absurd hlatest.remote_eq (habsent found hlatest.mem hlatest.registered)

variable {client : SessionClient}

/-- The only client of a remote is found, in whatever order the registry is searched. -/
theorem clientByRemoteIDLocked_eq_some (hclient : client ∈ session.clients)
    (hregistered : client.registered = true)
    (honly : ∀ other ∈ session.clients, other.registered = true → other.remote = client.remote →
      other = client) : session.clientByRemoteIDLocked client.remote = some client := by
  cases hfound : session.clientByRemoteIDLocked client.remote with
  | none =>
    obtain ⟨hlatest, -, -⟩ := @foldl_laterClient client.remote session.clients none
    obtain ⟨found, hsome, -⟩ := hlatest client hclient hregistered rfl
    rw [← clientByRemoteIDLocked_eq, hfound] at hsome
    cases hsome
  | some found =>
    have hlatest := isLatest_of_clientByRemoteIDLocked hfound
    rw [honly found hlatest.mem hlatest.registered hlatest.remote_eq]

/-- The ids that are given out are new. -/
def Fresh (session : Session) : Prop :=
  ∀ client ∈ session.clients, client.registered = true → client.id ≤ session.nextID

instance (session : Session) : Decidable session.Fresh :=
  inferInstanceAs (Decidable (∀ client ∈ _, _ → _))

theorem fresh_of_reachable {mode : Mode} (hreach : (machine mode).Reachable session) : session.Fresh := by
  have hnumbered : session.Numbered := hreach.invariant (P := Numbered) rfl
    fun _ action _ hbefore _ ↦ numbered_step hbefore action
  exact fun client hclient _ ↦ (hnumbered.id_bounds hclient).2

/-- After an attach there is one client of the attaching remote. -/
theorem only_admitted (habsent : session.Absent remote) {added : Session} {size : UInt32 × UInt32}
    (hadd : session.addClientLocked identity remote = some (added, client, size)) :
    client ∈ added.clients ∧ ∀ other ∈ added.clients, other.registered = true →
      other.remote = client.remote → other = client := by
  obtain ⟨_, _, _, _, _, hclients, _, _, _, hremote, _⟩ := addClientLocked_eq_some hadd
  rw [hclients]
  refine ⟨by simp, ?_⟩
  intro other hother hregistered hsame
  rcases List.mem_append.mp hother with hbefore | hnew
  · obtain ⟨before, hmem, rfl⟩ := List.mem_map.mp hbefore
    have hevolves := session.after_evolves (.addClient identity remote) before
    rw [hevolves.remote, hremote] at hsame
    exact absurd hsame (habsent before hmem (hevolves.registered hregistered))
  · exact List.mem_singleton.mp hnew

/-- The client that an attach admits, with the geometry of its remote. -/
def newcomer (id : ℕ) (canWrite : Bool) (identity : Identity) (remote : String)
    (geometry : UInt32 × UInt32) : SessionClient where
  id := id
  identity := identity
  remote := remote
  outCh := .empty
  kicked := false
  canWrite := canWrite
  cols := geometry.1
  rows := geometry.2
  dropped := 0
  registered := true

/-- The session with a new client. -/
def enroll (ready : Session) (client : SessionClient) : Session where
  mode := ready.mode
  nextID := ready.nextID + 1
  clients := ready.clients ++ [client]
  writerID := if ready.mode = .primaryObserver ∧ client.canWrite then client.id else ready.writerID
  pendingResize := Function.update ready.pendingResize client.remote none

/-- What `addClientLocked` returns with a new client. -/
def entered (ready : Session) (client : SessionClient) : Session × SessionClient × UInt32 × UInt32 :=
  (ready.enroll client, client,
    if client.Reports then (ready.enroll client).minGeometryLocked else (0, 0))

/-- What waited for the new client is taken by it. -/
theorem entered_pendingResize {ready : Session} (hremote : client.remote = remote)
    (pending : Option (UInt32 × UInt32)) :
    ({ ready with
        pendingResize := Function.update ready.pendingResize remote pending } : Session).entered client =
      ready.entered client := by
  subst hremote
  have henroll : ({ ready with
      pendingResize := Function.update ready.pendingResize client.remote pending } : Session).enroll client =
      ready.enroll client := by rw [enroll, enroll, Function.update_idem]
  rw [entered, entered, henroll]

/-- A geometry goes to the new client if no other one has its id. -/
theorem onClient_enroll {ready : Session} (hregistered : client.registered = true)
    (hothers : ∀ other ∈ ready.clients, ¬ other.Is client.id) :
    (ready.enroll client).onClient client.id (fun other ↦ { other with cols := cols, rows := rows }) =
      ready.enroll { client with cols := cols, rows := rows } := by
  have hkept : ready.clients.map (fun other ↦ if other.Is client.id then
      { other with cols := cols, rows := rows } else other) = ready.clients := by
    rw [List.map_congr_left (fun other hother ↦ if_neg (hothers other hother)), List.map_id']
  have hself : client.Is client.id := ⟨hregistered, rfl⟩
  simp only [onClient, enroll, List.map_append, hkept, List.map_cons, List.map_nil, if_pos hself]

section Admission

variable {ready : Session} {canWrite : Bool}
variable (hadmission : session.admission identity = some (ready, canWrite))
include hadmission

theorem addClientLocked_of_admission (remote : String) :
    session.addClientLocked identity remote =
      some (ready.entered (newcomer (ready.nextID + 1) canWrite identity remote
        ((session.pendingResize remote).getD (0, 0)))) := by
  simp only [addClientLocked, hadmission, ← pendingResize_of_admission hadmission, newcomer, enroll,
    entered, SessionClient.Reports, UInt32.pos_iff_ne_zero, true_and]

/-- A resize that came before is recorded by the attach. -/
theorem addClientLocked_of_pending (habsent : session.Absent remote) :
    (session.step (.applyResizeForRemote remote cols rows)).addClientLocked identity remote =
      some (ready.entered (newcomer (ready.nextID + 1) canWrite identity remote (cols, rows))) := by
  have hstep : session.step (.applyResizeForRemote remote cols rows) =
      { session with
        pendingResize := Function.update session.pendingResize remote (some (cols, rows)) } := by
    simp [step, applyResizeForRemote, clientByRemoteIDLocked_eq_none habsent]
  have hready := admission_pendingResize session identity
    (Function.update session.pendingResize remote (some (cols, rows)))
  rw [hadmission, Option.map_some, ← hstep] at hready
  rw [addClientLocked_of_admission hready, hstep, ← pendingResize_of_admission hadmission]
  simp only [Function.update_self, Option.getD_some]
  exact congrArg some (entered_pendingResize rfl (some (cols, rows)))

theorem not_is_next (hfresh : session.Fresh) :
    ∀ client ∈ ready.clients, ¬ client.Is (ready.nextID + 1) := by
  rintro client hclient ⟨hregistered, hid⟩
  obtain ⟨-, hnext, hclients, -⟩ := admission_eq_some hadmission
  rw [hclients] at hclient
  obtain ⟨before, hbefore, rfl⟩ := List.mem_map.mp hclient
  have hevolves := session.after_evolves (.addClient identity "") before
  have hle := hfresh before hbefore (hevolves.registered hregistered)
  rw [hevolves.id, hnext] at hid
  omega

/-- A resize that comes later goes to the new client. -/
theorem applyResizeForRemote_of_admission (hfresh : session.Fresh) (habsent : session.Absent remote) :
    (session.step (.addClient identity remote)).applyResizeForRemote remote cols rows =
      let resized := ready.enroll (newcomer (ready.nextID + 1) canWrite identity remote (cols, rows))
      (resized, if resized.minGeometryLocked.1 = 0 ∨ resized.minGeometryLocked.2 = 0 then (0, 0)
        else resized.minGeometryLocked) := by
  have hadd := addClientLocked_of_admission hadmission remote
  obtain ⟨hnew, honly⟩ := only_admitted habsent hadd
  rw [step_addClient hadd]
  generalize (session.pendingResize remote).getD (0, 0) = geometry at hnew honly
  have hfound : (ready.enroll (newcomer (ready.nextID + 1) canWrite identity remote
      geometry)).clientByRemoteIDLocked remote = some _ := clientByRemoteIDLocked_eq_some hnew rfl honly
  have hresized : (ready.enroll (newcomer (ready.nextID + 1) canWrite identity remote geometry)).onClient
      (ready.nextID + 1) (fun client ↦ { client with cols := cols, rows := rows }) =
      ready.enroll (newcomer (ready.nextID + 1) canWrite identity remote (cols, rows)) :=
    onClient_enroll rfl (not_is_next hadmission hfresh)
  rw [applyResizeForRemote]
  simp only [hfound]
  rw [← hresized]
  rfl

end Admission

/-- The minimum does not depend on the order in which the registry is read. -/
theorem minGeometryLocked_perm {order : List SessionClient} (horder : order.Perm session.clients) :
    ({ session with clients := order } : Session).minGeometryLocked = session.minGeometryLocked := by
  have hmem : ∀ client, client ∈ ({ session with clients := order } : Session).reported ↔
      client ∈ session.reported := by
    intro client
    rw [mem_reported, mem_reported, horder.mem_iff]
  by_cases hreported : session.reported = []
  · have hnone : ({ session with clients := order } : Session).reported = [] := by
      rw [List.eq_nil_iff_forall_not_mem] at hreported ⊢
      exact fun client hclient ↦ hreported client ((hmem client).mp hclient)
    rw [minGeometryLocked_of_reported_nil hreported, minGeometryLocked_of_reported_nil hnone]
  · have hsome : ({ session with clients := order } : Session).reported ≠ [] := by
      obtain ⟨client, hclient⟩ := List.exists_mem_of_ne_nil _ hreported
      exact List.ne_nil_of_mem ((hmem client).mpr hclient)
    obtain ⟨hcols, hrows⟩ := isMinimum_minGeometryLocked hsome
    simp only [hmem] at hcols hrows
    have hminimum := isMinimum_minGeometryLocked hreported
    apply Prod.ext
    · exact UInt32.toNat_inj.mp (hcols.unique hminimum.cols_least)
    · exact UInt32.toNat_inj.mp (hrows.unique hminimum.rows_least)

/-- The size is the minimum over the reports, in whatever order they are read. -/
structure HasSize (session : Session) (size : UInt32 × UInt32) : Prop where
  isMinimum : session.IsMinimum size.1.toNat size.2.toNat
  of_order (order : List SessionClient) : order.Perm session.clients →
    ({ session with clients := order } : Session).minGeometryLocked = size

theorem hasSize_minGeometryLocked (hreported : session.reported ≠ []) :
    session.HasSize session.minGeometryLocked where
  isMinimum := isMinimum_minGeometryLocked hreported
  of_order _ horder := minGeometryLocked_perm horder

/-- A resize and an attach of its remote can come in either order: the session is the same, and the size
requested last is the minimum over the reports. -/
theorem resize_attach_comm (hfresh : session.Fresh) (habsent : session.Absent remote) (hcols : cols ≠ 0)
    (hrows : rows ≠ 0) (identity : Identity) :
    (session.step (.applyResizeForRemote remote cols rows)).step (.addClient identity remote) =
        (session.step (.addClient identity remote)).step (.applyResizeForRemote remote cols rows) ∧
      ((session.step (.applyResizeForRemote remote cols rows)).addClientLocked identity remote).isSome =
        (session.addClientLocked identity remote).isSome ∧
      ((session.addClientLocked identity remote).isSome →
        (session.step (.applyResizeForRemote remote cols rows)).computed (.addClient identity remote) =
          (session.step (.addClient identity remote)).computed (.applyResizeForRemote remote cols rows) ∧
        ((session.step (.addClient identity remote)).step
          (.applyResizeForRemote remote cols rows)).HasSize
            ((session.step (.addClient identity remote)).computed
              (.applyResizeForRemote remote cols rows))) := by
  cases hadmission : session.admission identity with
  | none =>
    have hrefused : session.addClientLocked identity remote = none := by
      rw [addClientLocked, hadmission]
    have hlater : (session.step (.applyResizeForRemote remote cols rows)).addClientLocked identity
        remote = none := by
      simp only [step, applyResizeForRemote, clientByRemoteIDLocked_eq_none habsent, addClientLocked,
        admission_pendingResize, hadmission, Option.map_none]
    rw [step_addClient_refused hrefused, step_addClient_refused hlater, hrefused, hlater]
    exact ⟨rfl, rfl, fun hadmitted ↦ absurd hadmitted (by simp)⟩
  | some result =>
    obtain ⟨ready, canWrite⟩ := result
    have hattach : (session.step (.applyResizeForRemote remote cols rows)).addClientLocked identity
        remote = _ := addClientLocked_of_pending hadmission habsent
    have hresize : (session.step (.addClient identity remote)).applyResizeForRemote remote cols rows =
        _ := applyResizeForRemote_of_admission hadmission hfresh habsent
    generalize hclient : newcomer (ready.nextID + 1) canWrite identity remote (cols, rows) = client
      at hattach hresize
    have hreports : client.Reports := by
      rw [← hclient]
      exact ⟨rfl, hcols, hrows⟩
    have hreported : (ready.enroll client).reported ≠ [] :=
      List.ne_nil_of_mem (mem_reported.mpr ⟨by simp [enroll], hreports⟩)
    have hne := minGeometryLocked_ne_zero hreported
    have hcomputed : (session.step (.addClient identity remote)).computed
        (.applyResizeForRemote remote cols rows) = (ready.enroll client).minGeometryLocked := by
      simp [computed, hresize, hne]
    have hfinal : (session.step (.addClient identity remote)).step
        (.applyResizeForRemote remote cols rows) = ready.enroll client := congrArg Prod.fst hresize
    rw [hcomputed, hfinal, step_addClient hattach, hattach, addClientLocked_of_admission hadmission]
    refine ⟨rfl, rfl, fun _ ↦ ⟨?_, hasSize_minGeometryLocked hreported⟩⟩
    simp [computed, hattach, entered, hreports]

/-- Another client is attached, and the remote had sent another geometry before. -/
def exampleWaiting : Session :=
  (((start .primaryObserver).step (.addClient exampleWriter "alpha")).step
    (.applyResizeForRemote "alpha" 100 30)).step (.applyResizeForRemote "beta" 80 24)

theorem resize_attach_comm_example :
    (exampleWaiting.step (.applyResizeForRemote "beta" 120 20)).computed (.addClient exampleWriter "beta") =
        (100, 20) ∧
      ((exampleWaiting.step (.addClient exampleWriter "beta")).step
        (.applyResizeForRemote "beta" 120 20)).HasSize (100, 20) := by
  have hcomm := @resize_attach_comm exampleWaiting "beta" 120 20 (by decide +kernel) (by decide +kernel)
    (by decide) (by decide) exampleWriter
  have hsize : (exampleWaiting.step (.addClient exampleWriter "beta")).computed
      (.applyResizeForRemote "beta" 120 20) = (100, 20) := by decide +kernel
  rw [hsize] at hcomm
  exact hcomm.2.2 (by decide +kernel)

/-! ## The window -/

/-- The clients that report once the operation is done. -/
def reportedAfter (session : Session) (action : SessionAction) : List SessionClient :=
  (session.clients.map (session.after action) ++ session.admitted action).filter fun client ↦ client.Reports

theorem reported_step (session : Session) (action : SessionAction) :
    (session.step action).reported = session.reportedAfter action := by
  rw [reported, clients_step, reportedAfter]

/-- The operation requests a size. -/
def Requests (session : Session) : SessionAction → Prop
  | .addClient identity remote =>
    ∃ client ∈ session.admitted (.addClient identity remote), client.Reports
  | .removeClient id => session.reportedAfter (.removeClient id) ≠ []
  | .applyResizeForRemote remote _ _ => (session.clientByRemoteIDLocked remote).isSome
  | _ => False

instance (session : Session) (action : SessionAction) : Decidable (session.Requests action) := by
  induction action using SessionAction.casesOn <;> dsimp only [Requests] <;> infer_instance

/-- A control message with a zero dimension is not a resize. -/
def Valid : SessionAction → Prop
  | .applyResizeForRemote _ cols rows => cols ≠ 0 ∧ rows ≠ 0
  | _ => True

variable {action : SessionAction}

/-- The size that is requested is the minimum. -/
theorem computed_of_requests (hvalid : Valid action) (hrequests : session.Requests action) :
    (session.step action).reported ≠ [] ∧
      session.computed action = (session.step action).minGeometryLocked := by
  cases action with
  | addClient identity remote =>
    obtain ⟨client, hclient, hreports⟩ := hrequests
    obtain ⟨_, _, added, size, hsame, hadd⟩ := mem_admitted.mp hclient
    obtain ⟨rfl, rfl⟩ := SessionAction.addClient.inj hsame
    obtain ⟨-, -, hsize⟩ := addClientLocked_geometry hadd
    refine ⟨List.ne_nil_of_mem (mem_reported.mpr ⟨mem_step.mpr (.inr hclient), hreports⟩), ?_⟩
    rw [step_addClient hadd]
    simp [computed, hadd, hsize, hreports]
  | removeClient id => exact ⟨reported_step session _ ▸ hrequests, rfl⟩
  | applyResizeForRemote remote cols rows =>
    obtain ⟨found, hfound⟩ := Option.isSome_iff_exists.mp hrequests
    have hlatest := isLatest_of_clientByRemoteIDLocked hfound
    have hreported : (session.step (.applyResizeForRemote remote cols rows)).reported ≠ [] := by
      have hafter : session.after (.applyResizeForRemote remote cols rows) found =
          { found with cols := cols, rows := rows } := by
        have his : found.Is found.id := ⟨hlatest.registered, rfl⟩
        simp [after, hfound, his]
      refine List.ne_nil_of_mem (mem_reported.mpr ⟨mem_step.mpr (.inl ⟨found, hlatest.mem, hafter⟩), ?_⟩)
      exact ⟨hlatest.registered, hvalid⟩
    have hne := minGeometryLocked_ne_zero hreported
    simp only [step, applyResizeForRemote, hfound] at hne
    exact ⟨hreported, by simp [computed, step, applyResizeForRemote, hfound, hne]⟩
  | _ => exact absurd hrequests not_false

theorem computed_of_not_requests (hrequests : ¬ session.Requests action) :
    session.computed action = (0, 0) := by
  cases action with
  | addClient identity remote =>
    cases hadd : session.addClientLocked identity remote with
    | none => simp [computed, hadd]
    | some result =>
      obtain ⟨added, client, size⟩ := result
      obtain ⟨-, -, hsize⟩ := addClientLocked_geometry hadd
      have hreports : ¬ client.Reports := fun hreports ↦
        hrequests ⟨client, by simp [admitted, hadd], hreports⟩
      simp [computed, hadd, hsize, hreports]
  | removeClient id =>
    have hnone : (session.step (.removeClient id)).reported = [] := by
      rw [reported_step]
      exact not_ne_iff.mp hrequests
    exact minGeometryLocked_of_reported_nil hnone
  | applyResizeForRemote remote cols rows =>
    have hnone : session.clientByRemoteIDLocked remote = none := by
      simpa [Requests] using hrequests
    simp [computed, applyResizeForRemote, hnone]
  | _ => rfl

/-- The window gets the requested size, as far as its sixteen bits go. -/
def Applied (session : Session) (action : SessionAction) : Prop :=
  session.computed action ≠ (0, 0) →
    (applyPTYSize (session.computed action)).1 ≠ 0 ∧ (applyPTYSize (session.computed action)).2 ≠ 0 ∧
      ∃ cols rows, (session.step action).IsMinimum cols rows ∧
        (applyPTYSize (session.computed action)).1.toNat = min cols 65535 ∧
        (applyPTYSize (session.computed action)).2.toNat = min rows 65535

/-- The least of these numbers fits into sixteen bits, or its low sixteen bits are all set. -/
def LeastFits (numbers : List ℕ) : Prop :=
  (∃ number ∈ numbers, number < 65536) ∨
    ∃ number ∈ numbers, (∀ other ∈ numbers, number ≤ other) ∧ number % 65536 = 65535

instance (numbers : List ℕ) : Decidable (LeastFits numbers) :=
  inferInstanceAs (Decidable ((∃ number ∈ _, _) ∨ ∃ number ∈ _, (∀ other ∈ _, _) ∧ _))

/-- What is reported once the operation is done leaves a least size that fits. -/
def Narrow (session : Session) (action : SessionAction) : Prop :=
  session.Requests action →
    LeastFits ((session.reportedAfter action).map fun client ↦ client.cols.toNat) ∧
      LeastFits ((session.reportedAfter action).map fun client ↦ client.rows.toNat)

instance (session : Session) (action : SessionAction) : Decidable (session.Narrow action) :=
  inferInstanceAs (Decidable (_ → _ ∧ _))

theorem leastFits_iff {numbers : List ℕ} {least : ℕ} (hleast : IsLeast {number | number ∈ numbers} least) :
    LeastFits numbers ↔ least % 65536 = min least 65535 := by
  constructor
  · rintro (⟨number, hmem, hlt⟩ | ⟨number, hmem, hle, hbits⟩)
    · have := hleast.2 hmem
      omega
    · have := hleast.2 hmem
      have := hle least hleast.1
      omega
  · intro hbits
    by_cases hlt : least < 65536
    · exact .inl ⟨least, hleast.1, hlt⟩
    · exact .inr ⟨least, hleast.1, fun other hother ↦ hleast.2 hother, by omega⟩

/-- A size of the window is right exactly when the least numbers that are reported fit. -/
theorem applied_iff_narrow (hvalid : Valid action) : session.Applied action ↔ session.Narrow action := by
  by_cases hrequests : session.Requests action
  · obtain ⟨hreported, hcomputed⟩ := computed_of_requests hvalid hrequests
    obtain ⟨hcols, hrows⟩ := minGeometryLocked_ne_zero hreported
    have hminimum := isMinimum_minGeometryLocked hreported
    have hnonzero : (session.step action).minGeometryLocked ≠ (0, 0) := fun hzero ↦ hcols (by rw [hzero])
    rw [← hcomputed] at hcols hrows hminimum hnonzero
    have hcolsFit : LeastFits ((session.reportedAfter action).map fun client ↦ client.cols.toNat) ↔ _ :=
      leastFits_iff (by simpa [← reported_step] using hminimum.cols_least)
    have hrowsFit : LeastFits ((session.reportedAfter action).map fun client ↦ client.rows.toNat) ↔ _ :=
      leastFits_iff (by simpa [← reported_step] using hminimum.rows_least)
    have hwide : (session.computed action).1.toNat ≠ 0 := fun hzero ↦ hcols (UInt32.toNat_inj.mp hzero)
    have hhigh : (session.computed action).2.toNat ≠ 0 := fun hzero ↦ hrows (UInt32.toNat_inj.mp hzero)
    simp only [Applied, Narrow, applyPTYSize, UInt32.toNat_toUInt16, hrequests, true_imp_iff, hcolsFit,
      hrowsFit, ne_eq, hnonzero, not_false_iff, ← UInt16.toNat_inj, UInt16.toNat_zero]
    constructor
    · rintro ⟨-, -, cols, rows, hleast, hwindow⟩
      rw [hleast.cols_least.unique hminimum.cols_least, hleast.rows_least.unique hminimum.rows_least]
        at hwindow
      exact hwindow
    · rintro ⟨hwindowCols, hwindowRows⟩
      exact ⟨by omega, by omega, _, _, hminimum, hwindowCols, hwindowRows⟩
  · simp [Applied, Narrow, computed_of_not_requests hrequests, hrequests]

/-- The sizes of the window along a run are right exactly when at each operation the least numbers that
are reported fit. -/
theorem along_applied (mode : Mode) {actions : List SessionAction}
    (hvalid : ∀ action ∈ actions, Valid action) (session : Session) :
    (machine mode).Along Applied session actions ↔ (machine mode).Along Narrow session actions := by
  induction actions generalizing session with
  | nil => exact Iff.rfl
  | cons action actions ih =>
    have haction := hvalid action (by simp)
    have hrest := ih (fun other hother ↦ hvalid other (by simp [hother]))
      ((machine mode).step session action)
    exact and_congr (applied_iff_narrow haction) hrest

/-- A report that does not fit does no harm beside one that does. -/
theorem along_applied_example :
    (machine .multiWrite).Along Applied (start .multiWrite)
      [.addClient exampleWriter "alpha", .applyResizeForRemote "alpha" 100 40,
        .addClient exampleWriter "beta", .applyResizeForRemote "beta" 65536 30] :=
  (along_applied .multiWrite (by simp [Valid]) (start .multiWrite)).mpr (by decide +kernel)

/-- A single client that reports 65536 columns sets the window to none. -/
theorem not_applied_of_wide :
    Valid (.applyResizeForRemote "alpha" 65536 24) ∧
      applyPTYSize (((start .multiWrite).step (.addClient exampleWriter "alpha")).computed
        (.applyResizeForRemote "alpha" 65536 24)) = (0, 24) ∧
      ¬ ((start .multiWrite).step (.addClient exampleWriter "alpha")).Applied
        (.applyResizeForRemote "alpha" 65536 24) := by
  have hwindow : applyPTYSize (((start .multiWrite).step (.addClient exampleWriter "alpha")).computed
      (.applyResizeForRemote "alpha" 65536 24)) = (0, 24) := by decide +kernel
  refine ⟨by simp [Valid], hwindow, fun happlied ↦ ?_⟩
  have hright := happlied (by decide +kernel)
  rw [hwindow] at hright
  exact hright.1 rfl

end Session

end Mosey.Vterm
