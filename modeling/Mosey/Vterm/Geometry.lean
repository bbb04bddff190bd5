import Mathlib.Algebra.Group.Nat.Defs
import Mathlib.Order.Bounds.Defs
import Mosey.Vterm.Session

/-!
# The size of the PTY

Clients report the geometry of their terminals, and the PTY gets the least number of columns and the
least number of rows among the reports. The minimum is computed under the session lock and applied
after the lock is released, by whichever goroutine computed it, so two sizes can be applied in the
other order than they were computed in.
-/

namespace Mosey.Vterm

open Library Auth

/-- The size of the PTY that `applyPTYSize` sets. -/
def applyPTYSize (size : UInt32 × UInt32) : UInt16 × UInt16 := (size.1.toUInt16, size.2.toUInt16)

/-- A registered client that has sent a geometry. -/
def SessionClient.Reports (client : SessionClient) : Prop :=
  client.registered = true ∧ client.cols ≠ 0 ∧ client.rows ≠ 0

instance (client : SessionClient) : Decidable client.Reports := inferInstanceAs (Decidable (_ ∧ _ ∧ _))

/-- The smaller one of two values, where zero stands for no value yet. -/
def smaller (current value : UInt32) : UInt32 :=
  if current = 0 ∨ value < current then value else current

theorem smaller_of_ne_zero {current value : UInt32} (hcurrent : current ≠ 0) (hvalue : value ≠ 0) :
    smaller current value ≠ 0 ∧ (smaller current value = current ∨ smaller current value = value) ∧
      (smaller current value).toNat ≤ current.toNat ∧ (smaller current value).toNat ≤ value.toNat := by
  unfold smaller
  split_ifs with hless
  · have hlt : value < current := hless.resolve_left hcurrent
    exact ⟨hvalue, .inr rfl, Nat.le_of_lt hlt, Nat.le_refl _⟩
  · have hle : ¬ value < current := fun hlt ↦ hless (.inr hlt)
    exact ⟨hcurrent, .inl rfl, Nat.le_refl _, Nat.le_of_not_lt hle⟩

theorem foldl_smaller {values : List UInt32} (hvalues : ∀ value ∈ values, value ≠ 0)
    {current : UInt32} (hcurrent : current ≠ 0) :
    values.foldl smaller current ∈ current :: values ∧
      ∀ value ∈ current :: values, (values.foldl smaller current).toNat ≤ value.toNat := by
  induction values generalizing current with
  | nil => simp
  | cons head rest ih =>
    obtain ⟨hne, hone, hle, hle'⟩ :=
      smaller_of_ne_zero hcurrent (hvalues head List.mem_cons_self)
    obtain ⟨hmem, hleast⟩ := ih (fun value hvalue ↦ hvalues value (List.mem_cons_of_mem _ hvalue)) hne
    have hstart := hleast _ List.mem_cons_self
    rw [List.foldl_cons]
    refine ⟨?_, fun value hvalue ↦ ?_⟩
    · rcases List.mem_cons.mp hmem with hsame | hrest
      · rw [hsame]
        rcases hone with heq | heq <;> simp [heq]
      · exact List.mem_cons_of_mem _ (List.mem_cons_of_mem _ hrest)
    · rcases List.mem_cons.mp hvalue with rfl | hvalue
      · exact Nat.le_trans hstart hle
      · rcases List.mem_cons.mp hvalue with rfl | hvalue
        · exact Nat.le_trans hstart hle'
        · exact hleast value (List.mem_cons_of_mem _ hvalue)

/-- The loop over nonzero numbers finds the least one. -/
theorem isLeast_foldl_smaller {values : List UInt32} (hvalues : ∀ value ∈ values, value ≠ 0)
    (hne : values ≠ []) :
    IsLeast {number | ∃ value ∈ values, value.toNat = number} (values.foldl smaller 0).toNat := by
  obtain ⟨head, rest, rfl⟩ := List.exists_cons_of_ne_nil hne
  have hfirst : smaller 0 head = head := if_pos (.inl rfl)
  obtain ⟨hmem, hleast⟩ := foldl_smaller
    (fun value hvalue ↦ hvalues value (List.mem_cons_of_mem _ hvalue)) (hvalues head List.mem_cons_self)
  rw [List.foldl_cons, hfirst]
  refine ⟨⟨_, hmem, rfl⟩, ?_⟩
  rintro number ⟨value, hvalue, rfl⟩
  exact hleast value hvalue

namespace Session

/-- The clients that count for the minimum. -/
def reported (session : Session) : List SessionClient := session.clients.filter fun client ↦ client.Reports

/-- The componentwise minimum over the reports. -/
structure IsMinimum (session : Session) (cols rows : ℕ) : Prop where
  cols_least : IsLeast {number | ∃ client ∈ session.reported, client.cols.toNat = number} cols
  rows_least : IsLeast {number | ∃ client ∈ session.reported, client.rows.toNat = number} rows

variable {session : Session}

theorem mem_reported {client : SessionClient} :
    client ∈ session.reported ↔ client ∈ session.clients ∧ client.Reports := by
  simp [reported]

/-- Columns and rows are minimised independently over the clients that report. -/
theorem minGeometryLocked_eq (session : Session) :
    session.minGeometryLocked = ((session.reported.map SessionClient.cols).foldl smaller 0,
      (session.reported.map SessionClient.rows).foldl smaller 0) := by
  have hgeneral : ∀ (clients : List SessionClient) (size : UInt32 × UInt32),
      (clients.filter (·.registered)).foldl (fun size client ↦
        if client.cols = 0 ∨ client.rows = 0 then size
        else
          (if size.1 = 0 ∨ client.cols < size.1 then client.cols else size.1,
            if size.2 = 0 ∨ client.rows < size.2 then client.rows else size.2)) size =
        (((clients.filter fun client ↦ client.Reports).map SessionClient.cols).foldl smaller size.1,
          ((clients.filter fun client ↦ client.Reports).map SessionClient.rows).foldl smaller size.2) := by
    intro clients
    induction clients with
    | nil => exact fun _ ↦ rfl
    | cons head rest ih =>
      intro size
      by_cases hregistered : head.registered = true
      · by_cases hzero : head.cols = 0 ∨ head.rows = 0
        · have hskip : ¬ head.Reports := fun hreports ↦ hzero.elim hreports.2.1 hreports.2.2
          simp [hregistered, hzero, hskip, ih]
        · have hreports : head.Reports :=
            ⟨hregistered, fun heq ↦ hzero (.inl heq), fun heq ↦ hzero (.inr heq)⟩
          simp only [List.filter_cons, hregistered, hreports, decide_true, if_true,
            List.foldl_cons, hzero, if_false, List.map_cons, ih]
          rfl
      · have hskip : ¬ head.Reports := fun hreports ↦ hregistered hreports.1
        simp [hregistered, hskip, ih]
  exact hgeneral session.clients (0, 0)

/-- The minimum depends on the reports only. -/
theorem minGeometryLocked_congr {other : Session}
    (hcols : other.reported.map SessionClient.cols = session.reported.map SessionClient.cols)
    (hrows : other.reported.map SessionClient.rows = session.reported.map SessionClient.rows) :
    other.minGeometryLocked = session.minGeometryLocked := by
  rw [minGeometryLocked_eq, minGeometryLocked_eq, hcols, hrows]

theorem minGeometryLocked_of_reported_nil (hnone : session.reported = []) :
    session.minGeometryLocked = (0, 0) := by
  rw [minGeometryLocked_eq, hnone]
  rfl

/-- With a client that reports, the computed size is the minimum. -/
theorem isMinimum_minGeometryLocked (hreported : session.reported ≠ []) :
    session.IsMinimum session.minGeometryLocked.1.toNat session.minGeometryLocked.2.toNat := by
  rw [minGeometryLocked_eq]
  have hcols : ∀ value ∈ session.reported.map SessionClient.cols, value ≠ 0 := by
    intro value hvalue
    obtain ⟨client, hclient, rfl⟩ := List.mem_map.mp hvalue
    exact (mem_reported.mp hclient).2.2.1
  have hrows : ∀ value ∈ session.reported.map SessionClient.rows, value ≠ 0 := by
    intro value hvalue
    obtain ⟨client, hclient, rfl⟩ := List.mem_map.mp hvalue
    exact (mem_reported.mp hclient).2.2.2
  exact ⟨by simpa using isLeast_foldl_smaller hcols (by simpa using hreported),
    by simpa using isLeast_foldl_smaller hrows (by simpa using hreported)⟩

/-- Only a session without a report has no minimum. -/
theorem minGeometryLocked_ne_zero (hreported : session.reported ≠ []) :
    session.minGeometryLocked.1 ≠ 0 ∧ session.minGeometryLocked.2 ≠ 0 := by
  obtain ⟨⟨⟨first, hfirst, hcols⟩, _⟩, ⟨second, hsecond, hrows⟩, _⟩ :=
    isMinimum_minGeometryLocked hreported
  constructor
  · rw [← UInt32.toNat_inj.mp hcols]
    exact (mem_reported.mp hfirst).2.2.1
  · rw [← UInt32.toNat_inj.mp hrows]
    exact (mem_reported.mp hsecond).2.2.2

end Session

/-- A session with its PTY. -/
structure GeometryRun where
  session : Session
  /-- The sizes that were computed and are not yet applied, in the order of their computation. -/
  pending : List (UInt32 × UInt32)
  pty : UInt16 × UInt16

inductive GeometryAction
  | session (action : SessionAction)
  | apply (index : ℕ)
  deriving DecidableEq

/-- The size that an operation computes, or zero if it computes none. -/
def Session.computed (session : Session) : SessionAction → UInt32 × UInt32
  | .addClient identity remote =>
    match session.addClientLocked identity remote with
    | none => (0, 0)
    | some (_, _, size) => size
  | .removeClient id => (session.removeClient id).2
  | .applyResizeForRemote remote cols rows => (session.applyResizeForRemote remote cols rows).2
  | _ => (0, 0)

namespace GeometryRun

def step (state : GeometryRun) : GeometryAction → GeometryRun
  | .session action =>
    let size := state.session.computed action
    { state with
      session := state.session.step action
      pending := state.pending ++ if size.1 = 0 ∨ size.2 = 0 then [] else [size] }
  | .apply index =>
    match state.pending[index]? with
    | none => state
    | some size =>
      { state with
        pending := state.pending.eraseIdx index
        pty := applyPTYSize size }

/-- A control message with a zero dimension is not a resize. -/
def allowed (state : GeometryRun) : GeometryAction → Prop
  | .session (.applyResizeForRemote _ cols rows) => cols ≠ 0 ∧ rows ≠ 0
  | .session _ => True
  | .apply index => index < state.pending.length

def machine (mode : Mode) : Machine GeometryRun GeometryAction where
  init := ⟨.start mode, [], (80, 24)⟩
  allowed := allowed
  step := step

/-- The size computed last is applied when no other one is pending, and what is reported fits the
sixteen bits of a window size. -/
def LatestLast (state : GeometryRun) : GeometryAction → Prop
  | .session (.applyResizeForRemote _ cols rows) => cols.toNat < 2 ^ 16 ∧ rows.toNat < 2 ^ 16
  | .session _ => True
  | .apply index => index + 1 = state.pending.length → index = 0

instance (mode : Mode) (state : GeometryRun) (action : GeometryAction) :
    Decidable ((machine mode).allowed state action) := by
  induction action using GeometryAction.casesOn with
  | session action =>
    induction action using SessionAction.casesOn <;> dsimp only [machine, allowed] <;> infer_instance
  | apply index => exact inferInstanceAs (Decidable (_ < _))

instance (state : GeometryRun) (action : GeometryAction) : Decidable (state.LatestLast action) := by
  induction action using GeometryAction.casesOn with
  | session action =>
    induction action using SessionAction.casesOn <;> dsimp only [LatestLast] <;> infer_instance
  | apply index => exact inferInstanceAs (Decidable (_ → _))

end GeometryRun

/-! ## What an operation computes -/

/-- The same part in the minimum. -/
structure SessionClient.SameReport (before after : SessionClient) : Prop where
  registered : after.registered = before.registered
  cols : after.cols = before.cols
  rows : after.rows = before.rows

namespace SessionClient

variable {session : Session} {action : SessionAction} {client later : SessionClient}

theorem SameReport.reports (hsame : client.SameReport later) : later.Reports ↔ client.Reports := by
  unfold Reports
  rw [hsame.registered, hsame.cols, hsame.rows]

theorem sameReport_offer (client : SessionClient) (chunk : Bytes) :
    client.SameReport (client.offer chunk) := by
  unfold offer
  split <;> exact ⟨rfl, rfl, rfl⟩

/-- Only resizes and departures change what a client reports. -/
theorem Change.sameReport (hchange : client.Change session action later)
    (hremove : ∀ id, action ≠ .removeClient id)
    (hresize : ∀ remote cols rows, action ≠ .applyResizeForRemote remote cols rows)
    (hshutdown : action ≠ .shutdown) : client.SameReport later := by
  cases hchange with
  | @removed id _ => exact absurd rfl (hremove id)
  | @resized remote cols rows => exact absurd rfl (hresize remote cols rows)
  | dismissed _ => exact absurd rfl hshutdown
  | @offered chunk _ => exact client.sameReport_offer chunk
  | @replayed _ replay => exact client.sameReport_offer replay
  | _ => exact ⟨rfl, rfl, rfl⟩

end SessionClient

namespace Session

variable {session : Session} {action : SessionAction}

/-- An operation that changes no report keeps the minimum. -/
theorem minGeometryLocked_step_of_sameReport
    (hsame : ∀ client ∈ session.clients, client.SameReport (session.after action client))
    (hadmitted : ∀ client ∈ session.admitted action, ¬ client.Reports) :
    (session.step action).minGeometryLocked = session.minGeometryLocked := by
  have hreported : (session.step action).reported = session.reported.map (session.after action) := by
    have hnone : (session.admitted action).filter (fun client ↦ client.Reports) = [] := by
      simpa [List.filter_eq_nil_iff] using hadmitted
    unfold reported
    rw [clients_step, List.filter_append, hnone, List.append_nil, List.filter_map]
    congr 1
    apply List.filter_congr
    intro client hclient
    simp [(hsame client hclient).reports]
  apply minGeometryLocked_congr
  · rw [hreported, List.map_map]
    exact List.map_congr_left fun client hclient ↦ (hsame client (mem_reported.mp hclient).1).cols
  · rw [hreported, List.map_map]
    exact List.map_congr_left fun client hclient ↦ (hsame client (mem_reported.mp hclient).1).rows

/-- Admission does not look at the resizes that wait. -/
theorem admission_pendingResize (session : Session) (identity : Identity)
    (pending : String → Option (UInt32 × UInt32)) :
    ({ session with pendingResize := pending } : Session).admission identity =
      (session.admission identity).map fun result ↦
        ({ result.1 with pendingResize := pending }, result.2) := by
  cases hmode : session.mode with
  | exclusive =>
    simp only [admission, hmode]
    split_ifs <;> simp [hmode]
  | _ => simp [admission, hmode, onAll, client?]

theorem pendingResize_of_admission {identity : Identity} {ready : Session} {canWrite : Bool}
    (hadmission : session.admission identity = some (ready, canWrite)) :
    ready.pendingResize = session.pendingResize := by
  have hsame := admission_pendingResize session identity session.pendingResize
  rw [hadmission] at hsame
  obtain ⟨hready, -⟩ := Prod.mk.inj (Option.some.inj hsame)
  rw [hready]

/-- The geometry of an admitted client is the one its remote sent before. -/
theorem addClientLocked_geometry {identity : Identity} {remote : String} {added : Session}
    {client : SessionClient} {size : UInt32 × UInt32}
    (hadd : session.addClientLocked identity remote = some (added, client, size)) :
    (client.cols, client.rows) = (session.pendingResize remote).getD (0, 0) ∧
      added.pendingResize = Function.update session.pendingResize remote none ∧
      size = if client.Reports then added.minGeometryLocked else (0, 0) := by
  unfold addClientLocked at hadd
  split at hadd
  · cases hadd
  · next ready canWrite hadmission =>
    have hpending := pendingResize_of_admission hadmission
    simp only [Option.some.injEq, Prod.mk.injEq] at hadd
    obtain ⟨rfl, rfl, rfl⟩ := hadd
    refine ⟨by rw [hpending], by rw [hpending], ?_⟩
    simp only [SessionClient.Reports, UInt32.pos_iff_ne_zero, true_and]

/-- A minimum that an operation leaves was one over reports already. -/
theorem minGeometryLocked_step_kept (hreported : (session.step action).reported ≠ [])
    (hsame : ∀ client ∈ session.clients, client.SameReport (session.after action client))
    (hadmitted : ∀ client ∈ session.admitted action, ¬ client.Reports) :
    session.reported ≠ [] ∧ (session.step action).minGeometryLocked = session.minGeometryLocked := by
  have hmin := minGeometryLocked_step_of_sameReport hsame hadmitted
  refine ⟨fun hnone ↦ ?_, hmin⟩
  rw [minGeometryLocked_of_reported_nil hnone] at hmin
  exact (minGeometryLocked_ne_zero hreported).1 (by rw [hmin])

theorem reported_shutdown (session : Session) : (session.step .shutdown).reported = [] := by
  unfold reported
  rw [List.filter_eq_nil_iff]
  intro client hclient
  rw [clients_step] at hclient
  simp only [admitted, List.append_nil, List.mem_map] at hclient
  obtain ⟨before, _, rfl⟩ := hclient
  simp only [after, SessionClient.Reports]
  split <;> simp_all [SessionClient.leave]

/-- While someone reports, an operation either computes the minimum anew or leaves it. -/
theorem computed_cases (session : Session) (action : SessionAction)
    (hreported : (session.step action).reported ≠ []) :
    session.computed action = (session.step action).minGeometryLocked ∨
      session.computed action = (0, 0) ∧ session.reported ≠ [] ∧
        (session.step action).minGeometryLocked = session.minGeometryLocked := by
  have hkept := minGeometryLocked_step_kept hreported
  cases action with
  | addClient identity remote =>
    cases hadd : session.addClientLocked identity remote with
    | none =>
      rw [step_addClient_refused hadd] at hreported ⊢
      exact .inr ⟨by simp [computed, hadd], hreported, rfl⟩
    | some result =>
      obtain ⟨added, client, size⟩ := result
      obtain ⟨_, _, hsize⟩ := addClientLocked_geometry hadd
      by_cases hreports : client.Reports
      · left
        rw [step_addClient hadd]
        simp [computed, hadd, hsize, hreports]
      · right
        refine ⟨by simp [computed, hadd, hsize, hreports], hkept ?_ ?_⟩
        · intro other _
          exact (session.change_after _ other).sameReport (by simp) (by simp) (by simp)
        · simpa [admitted, hadd] using hreports
  | removeClient id => exact .inl rfl
  | applyResizeForRemote remote cols rows =>
    cases hfound : session.clientByRemoteIDLocked remote with
    | none =>
      right
      refine ⟨by simp [computed, applyResizeForRemote, hfound], hkept ?_ (by simp [admitted])⟩
      intro client _
      simp only [after, hfound]
      exact ⟨rfl, rfl, rfl⟩
    | some found =>
      left
      have hne := minGeometryLocked_ne_zero hreported
      simp only [step, applyResizeForRemote, hfound] at hne
      simp [computed, step, applyResizeForRemote, hfound, hne]
  | shutdown => exact absurd session.reported_shutdown hreported
  | _ =>
    refine .inr ⟨rfl, hkept (fun client _ ↦ ?_) (by simp [admitted])⟩
    exact (session.change_after _ client).sameReport (by simp) (by simp) (by simp)

/-- What is reported, or waits to be, fits a window size. -/
structure Fits (session : Session) : Prop where
  clients : ∀ client ∈ session.clients, client.cols.toNat < 2 ^ 16 ∧ client.rows.toNat < 2 ^ 16
  pendingResize : ∀ remote, ∀ size ∈ session.pendingResize remote,
    size.1.toNat < 2 ^ 16 ∧ size.2.toNat < 2 ^ 16

theorem fits_start (mode : Mode) : (start mode).Fits := ⟨by simp [start], by simp [start]⟩

theorem Fits.after (hfits : session.Fits)
    (haction : ∀ remote cols rows, action = .applyResizeForRemote remote cols rows →
      cols.toNat < 2 ^ 16 ∧ rows.toNat < 2 ^ 16)
    {client : SessionClient} (hclient : client ∈ session.clients) :
    (session.after action client).cols.toNat < 2 ^ 16 ∧
      (session.after action client).rows.toNat < 2 ^ 16 := by
  have hbefore := hfits.clients client hclient
  have hchange := session.change_after action client
  generalize session.after action client = later at hchange
  cases hchange with
  | @resized remote cols rows => exact haction remote cols rows rfl
  | @offered chunk _ =>
    have hsame := client.sameReport_offer chunk
    rw [hsame.cols, hsame.rows]
    exact hbefore
  | @replayed _ replay =>
    have hsame := client.sameReport_offer replay
    rw [hsame.cols, hsame.rows]
    exact hbefore
  | _ => exact hbefore

theorem Fits.admitted (hfits : session.Fits) {client : SessionClient}
    (hclient : client ∈ session.admitted action) :
    client.cols.toNat < 2 ^ 16 ∧ client.rows.toNat < 2 ^ 16 := by
  obtain ⟨identity, remote, added, size, rfl, hadd⟩ := mem_admitted.mp hclient
  obtain ⟨hgeometry, _, _⟩ := addClientLocked_geometry hadd
  cases hpending : session.pendingResize remote with
  | none =>
    rw [hpending] at hgeometry
    obtain ⟨hcols, hrows⟩ := Prod.mk.inj hgeometry
    rw [hcols, hrows]
    decide
  | some pending =>
    rw [hpending] at hgeometry
    have hfit := hfits.pendingResize remote pending hpending
    rw [Option.getD_some] at hgeometry
    rw [← hgeometry] at hfit
    exact hfit

theorem Fits.pendingResize_step (hfits : session.Fits)
    (haction : ∀ remote cols rows, action = .applyResizeForRemote remote cols rows →
      cols.toNat < 2 ^ 16 ∧ rows.toNat < 2 ^ 16)
    (other : String) {size : UInt32 × UInt32}
    (hsize : size ∈ (session.step action).pendingResize other) :
    size.1.toNat < 2 ^ 16 ∧ size.2.toNat < 2 ^ 16 := by
  cases action with
  | addClient identity remote =>
    cases hadd : session.addClientLocked identity remote with
    | none =>
      rw [step_addClient_refused hadd] at hsize
      exact hfits.pendingResize other size hsize
    | some result =>
      obtain ⟨added, client, applied⟩ := result
      obtain ⟨_, hpending, _⟩ := addClientLocked_geometry hadd
      rw [step_addClient hadd, hpending, Function.update_apply] at hsize
      split_ifs at hsize
      · cases hsize
      · exact hfits.pendingResize other size hsize
  | promoteClient id =>
    simp only [step, promoteClient, onClient] at hsize
    split_ifs at hsize <;> exact hfits.pendingResize other size hsize
  | demoteRemote remote =>
    simp only [step, demoteRemote, onClient] at hsize
    split at hsize <;> exact hfits.pendingResize other size hsize
  | applyResizeForRemote remote cols rows =>
    simp only [step, applyResizeForRemote, onClient] at hsize
    split at hsize
    · simp only [Function.update_apply] at hsize
      split_ifs at hsize
      · rw [← Option.some.inj hsize]
        exact haction remote cols rows rfl
      · exact hfits.pendingResize other size hsize
    · exact hfits.pendingResize other size hsize
  | _ => exact hfits.pendingResize other size hsize

/-- Sizes that fit 16 bits stay so as long as the reports do. -/
theorem fits_step (hfits : session.Fits)
    (haction : ∀ remote cols rows, action = .applyResizeForRemote remote cols rows →
      cols.toNat < 2 ^ 16 ∧ rows.toNat < 2 ^ 16) : (session.step action).Fits where
  clients client hclient := by
    rcases mem_step.mp hclient with ⟨before, hbefore, rfl⟩ | hnew
    · exact hfits.after haction hbefore
    · exact hfits.admitted hnew
  pendingResize other _ hsize := hfits.pendingResize_step haction other hsize

/-- A minimum that fits is the size the PTY gets. -/
theorem Fits.isMinimum (hfits : session.Fits) (hreported : session.reported ≠ []) :
    session.IsMinimum (applyPTYSize session.minGeometryLocked).1.toNat
      (applyPTYSize session.minGeometryLocked).2.toNat := by
  have hminimum := isMinimum_minGeometryLocked hreported
  obtain ⟨first, hfirst, hcols⟩ := hminimum.cols_least.1
  obtain ⟨second, hsecond, hrows⟩ := hminimum.rows_least.1
  have hfirstFits := (hfits.clients first (mem_reported.mp hfirst).1).1
  have hsecondFits := (hfits.clients second (mem_reported.mp hsecond).1).2
  simp only [applyPTYSize, UInt32.toNat_toUInt16]
  rw [Nat.mod_eq_of_lt (hcols ▸ hfirstFits), Nat.mod_eq_of_lt (hrows ▸ hsecondFits)]
  exact hminimum

end Session

namespace GeometryRun

variable {state : GeometryRun} {action : GeometryAction}

/-- Once nothing is pending, the PTY has the minimum over the reports. -/
def Converged (state : GeometryRun) : Prop :=
  state.pending = [] → state.session.reported ≠ [] →
    state.session.IsMinimum state.pty.1.toNat state.pty.2.toNat

/-- The minimum is the size computed last, which is pending or was applied. -/
structure Tracks (state : GeometryRun) : Prop where
  fits : state.session.Fits
  pending : state.session.reported ≠ [] →
    ∀ size ∈ state.pending.getLast?, size = state.session.minGeometryLocked
  pty : state.session.reported ≠ [] → state.pending = [] →
    state.pty = applyPTYSize state.session.minGeometryLocked

/-- When no computed size is pending, the terminal has the minimum. -/
theorem Tracks.converged (htracks : state.Tracks) : state.Converged := by
  intro hpending hreported
  rw [htracks.pty hreported hpending]
  exact htracks.fits.isMinimum hreported

theorem tracks_session (htracks : state.Tracks) (action : SessionAction)
    (hcondition : state.LatestLast (.session action)) : (state.step (.session action)).Tracks := by
  have hfits : (state.session.step action).Fits := by
    apply Session.fits_step htracks.fits
    rintro remote cols rows rfl
    exact hcondition
  refine ⟨hfits, fun hreported size hsize ↦ ?_, fun hreported hpending ↦ ?_⟩
  · rcases state.session.computed_cases action hreported with hnew | ⟨hzero, hbefore, hkept⟩
    · have hne := @Session.minGeometryLocked_ne_zero (state.session.step action) hreported
      rw [← hnew] at hne
      simp only [step, hne.1, hne.2, or_self, if_false, List.getLast?_append, List.getLast?_singleton,
        Option.some_or, Option.mem_some_iff] at hsize
      rw [← hsize, hnew]
      rfl
    · simp only [step, hzero, or_self, if_true, List.append_nil] at hsize
      exact (htracks.pending hbefore size hsize).trans hkept.symm
  · rcases state.session.computed_cases action hreported with hnew | ⟨hzero, hbefore, hkept⟩
    · have hne := @Session.minGeometryLocked_ne_zero (state.session.step action) hreported
      rw [← hnew] at hne
      simp [step, hne.1, hne.2] at hpending
    · simp only [step, hzero, or_self, if_true, List.append_nil] at hpending
      rw [step, htracks.pty hbefore hpending, hkept]

/-- Applying the size computed last brings the terminal up to date. -/
theorem tracks_apply (htracks : state.Tracks) {index : ℕ} (hallowed : state.allowed (.apply index))
    (hcondition : state.LatestLast (.apply index)) : (state.step (.apply index)).Tracks := by
  have hindex : index < state.pending.length := hallowed
  have hstep : state.step (.apply index) =
      { state with
        pending := state.pending.eraseIdx index
        pty := applyPTYSize (state.pending[index]) } := by
    simp [step, hindex]
  rw [hstep]
  by_cases hlast : index + 1 = state.pending.length
  · -- the only pending size is the one computed last
    have hzero : index = 0 := hcondition hlast
    subst hzero
    obtain ⟨size, hsize⟩ := List.length_eq_one_iff.mp hlast.symm
    refine ⟨htracks.fits, fun _ other hother ↦ ?_, fun hreported _ ↦ ?_⟩
    · simp [hsize] at hother
    · have hminimum := htracks.pending hreported size (by simp [hsize])
      simp [hsize, hminimum]
  · have hgetLast : (state.pending.eraseIdx index).getLast? = state.pending.getLast? := by
      rw [List.getLast?_eq_getElem?, List.getLast?_eq_getElem?, List.getElem?_eraseIdx,
        List.length_eraseIdx_of_lt hindex, if_neg (by omega)]
      congr 1
      omega
    refine ⟨htracks.fits, fun hreported size hsize ↦ ?_, fun _ hpending ↦ ?_⟩
    · dsimp only at hsize
      rw [hgetLast] at hsize
      exact htracks.pending hreported size hsize
    · have hlength := congrArg List.length hpending
      rw [List.length_eraseIdx_of_lt hindex, List.length_nil] at hlength
      omega

/-- In every run in which the size computed last is applied last, the PTY ends up at the minimum. -/
theorem converged_of_latestLast {mode : Mode}
    (hreach : ((machine mode).restrict LatestLast).Reachable state) : state.Converged := by
  apply Tracks.converged
  apply hreach.invariant (P := Tracks)
  · exact ⟨Session.fits_start mode, by simp [machine, Machine.restrict],
      fun hreported ↦ absurd rfl hreported⟩
  · intro before action _ htracks hallowed
    cases action with
    | session action => exact tracks_session htracks action hallowed.2
    | apply index => exact tracks_apply htracks hallowed.1 hallowed.2

end GeometryRun

section Example

abbrev exampleGeometry : Machine GeometryRun GeometryAction := GeometryRun.machine .multiWrite

/-- A client reports, another one attaches with a report sent before, and the first one leaves. -/
def exampleDeparture : List GeometryAction :=
  [.session (.addClient exampleWriter "alpha"),
    .session (.applyResizeForRemote "alpha" 40 20), .apply 0,
    .session (.applyResizeForRemote "beta" 120 50),
    .session (.addClient exampleWriter "beta"), .session (.removeClient 1), .apply 0, .apply 0]

theorem converged_example :
    (exampleGeometry.run exampleGeometry.init exampleDeparture).pty = (120, 50) ∧
      (exampleGeometry.run exampleGeometry.init exampleDeparture).session.IsMinimum 120 50 := by
  have hlegal : (exampleGeometry.restrict GeometryRun.LatestLast).Legal exampleGeometry.init
      exampleDeparture := Machine.legal_restrict _ (by decide +kernel) (by decide +kernel)
  have hpty : (exampleGeometry.run exampleGeometry.init exampleDeparture).pty = (120, 50) := by
    decide +kernel
  have hconverged := GeometryRun.converged_of_latestLast (Machine.Reachable.init.run hlegal)
    (by decide +kernel) (by decide +kernel)
  exact ⟨hpty, hconverged⟩

/-- Two clients shrink their terminals, and the size of the second one is applied first. -/
def exampleReordered : List GeometryAction :=
  [.session (.addClient exampleWriter "alpha"), .session (.addClient exampleWriter "beta"),
    .session (.applyResizeForRemote "alpha" 100 40), .apply 0,
    .session (.applyResizeForRemote "beta" 60 30),
    .session (.applyResizeForRemote "alpha" 50 20), .apply 1, .apply 0]

theorem not_converged_of_reordered :
    exampleGeometry.Legal exampleGeometry.init exampleReordered ∧
      (exampleGeometry.run exampleGeometry.init exampleReordered).pty = (60, 30) ∧
      (exampleGeometry.run exampleGeometry.init exampleReordered).session.minGeometryLocked =
        (50, 20) ∧
      ¬ (exampleGeometry.run exampleGeometry.init exampleReordered).Converged := by
  refine ⟨by decide +kernel, by decide +kernel, by decide +kernel, fun hconverged ↦ ?_⟩
  have hminimum := hconverged (by decide +kernel) (by decide +kernel)
  have hsmaller : ∃ client ∈
      (exampleGeometry.run exampleGeometry.init exampleReordered).session.reported,
      client.cols.toNat = 50 := by decide +kernel
  have hle := hminimum.cols_least.2 hsmaller
  revert hle
  decide +kernel

end Example

end Mosey.Vterm
