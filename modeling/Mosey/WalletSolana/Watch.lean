import Mosey.Library.Channel
import Mosey.Library.Machine

/-!
# Waking the refresh loop

`Source.Run` refreshes the snapshot and then waits for its ticker or for `refreshNow`. Each connection of
the watcher has a goroutine that reads messages and signals `refreshNow` for every account notification,
without waiting: the channel holds one signal, and a full one is taken to mean that a refresh is already
pending.
-/

namespace Mosey.WalletSolana

open Library

inductive LoopStage
  /-- Before a `Refresh`: at the start, or after the wait has ended. -/
  | woken
  | refreshing
  | waiting
  | stopped
  deriving DecidableEq

/-- The goroutine that reads one connection. -/
inductive ReaderStage
  | reading
  /-- A notification was read, and its signal is still to be sent. -/
  | notified
  | returned
  deriving DecidableEq

structure WatchRun where
  loop : LoopStage
  refreshNow : Channel Unit 1
  /-- The readers of all connections so far. -/
  readers : List ReaderStage
  /-- How many notifications were read and their signals attempted, in all and when the last `Refresh`
  started. -/
  handled : ℕ
  handledAtStart : ℕ

inductive WatchAction
  | refresh
  | refreshed
  | tick
  | wake
  | cancel
  | connect
  | message (index : ℕ) (method : String)
  | signal (index : ℕ)
  | close (index : ℕ)
  deriving DecidableEq

namespace WatchRun

variable (state : WatchRun)

def step : WatchAction → WatchRun
  | .refresh => { state with loop := .refreshing, handledAtStart := state.handled }
  | .refreshed => { state with loop := .waiting }
  | .tick => { state with loop := .woken }
  | .wake => { state with loop := .woken, refreshNow := state.refreshNow.receive }
  | .cancel => { state with loop := .stopped }
  | .connect => { state with readers := state.readers ++ [.reading] }
  | .message index method =>
    if method = "accountNotification" then
      { state with readers := state.readers.set index .notified }
    else state
  | .signal index =>
    { state with
      readers := state.readers.set index .reading
      refreshNow := (state.refreshNow.trySend ()).getD state.refreshNow
      handled := state.handled + 1 }
  | .close index => { state with readers := state.readers.set index .returned }

def allowed : WatchAction → Prop
  | .refresh => state.loop = .woken
  | .refreshed => state.loop = .refreshing
  | .tick => state.loop = .waiting
  | .wake => state.loop = .waiting ∧ state.refreshNow.queued ≠ []
  | .cancel => state.loop = .waiting
  | .connect => True
  | .message index _ => state.readers[index]? = some .reading
  | .signal index => state.readers[index]? = some .notified
  | .close index => state.readers[index]? = some .reading

def machine : Machine WatchRun WatchAction where
  init := ⟨.woken, .empty, [], 0, 0⟩
  allowed := allowed
  step := step

instance (state : WatchRun) (action : WatchAction) : Decidable (machine.allowed state action) := by
  induction action using WatchAction.casesOn <;> dsimp only [machine, allowed] <;> infer_instance

/-- A notification handled since the last `Refresh` started is signalled, unless the loop is already on
its way to the next one. -/
def Signalled : Prop :=
  state.handledAtStart < state.handled → state.refreshNow.queued ≠ [] ∨ state.loop = .woken ∨
    state.loop = .stopped

variable {state}

/-- After an attempt to signal, the channel is not empty, whether or not it was full. -/
theorem queued_signal (refreshNow : Channel Unit 1) :
    ((refreshNow.trySend ()).getD refreshNow).queued ≠ [] := by
  cases hsend : refreshNow.trySend () with
  | none => exact Channel.queued_ne_nil_of_full Nat.one_pos (Channel.trySend_eq_none.mp hsend)
  | some after => simp [Channel.queued_trySend hsend]

/-- Every step keeps a notification signalled until the next `Refresh` starts. -/
theorem signalled_step (hsignalled : state.Signalled) {action : WatchAction}
    (hallowed : state.allowed action) : (state.step action).Signalled := by
  cases action with
  | refresh => exact fun hlater ↦ absurd hlater (Nat.lt_irrefl _)
  | refreshed =>
    intro hlater
    have hloop : state.loop = .refreshing := hallowed
    rcases hsignalled hlater with hqueued | hwoken | hstopped
    · exact .inl hqueued
    · simp [hloop] at hwoken
    · simp [hloop] at hstopped
  | tick | wake => exact fun _ ↦ .inr (.inl rfl)
  | cancel => exact fun _ ↦ .inr (.inr rfl)
  | connect => exact hsignalled
  | message index method =>
    simp only [step]
    split_ifs
    · exact hsignalled
    · exact hsignalled
  | signal index => exact fun _ ↦ .inl (queued_signal state.refreshNow)
  | close index => exact hsignalled

theorem signalled (hreach : machine.Reachable state) : state.Signalled :=
  hreach.invariant (P := Signalled) (fun hlater ↦ absurd hlater (Nat.lt_irrefl _))
    fun _ _ _ hsignalled hallowed ↦ signalled_step hsignalled hallowed

theorem handled_le_step (state : WatchRun) (action : WatchAction) :
    state.handled ≤ (state.step action).handled := by
  cases action with
  | signal index => exact Nat.le_succ _
  | message index method =>
    simp only [step]
    split_ifs <;> exact Nat.le_refl _
  | _ => exact Nat.le_refl _

/-- What was handled stays so. -/
theorem handled_le_run (state : WatchRun) (actions : List WatchAction) :
    state.handled ≤ (machine.run state actions).handled := by
  induction actions generalizing state with
  | nil => exact Nat.le_refl _
  | cons action rest ih => exact Nat.le_trans (state.handled_le_step action) (ih (state.step action))

/-- No notification is lost: the loop does not wait with an empty channel after one that was handled
since its last `Refresh` started. So whenever it does, that `Refresh` started after every notification
that had been handled at any point before. -/
theorem no_lost_notification (hreach : machine.Reachable state) :
    (state.loop = .waiting → state.handledAtStart < state.handled → state.refreshNow.queued ≠ []) ∧
      ∀ actions, machine.Legal state actions →
        (machine.run state actions).loop = .waiting →
        (machine.run state actions).refreshNow.queued = [] →
        state.handled ≤ (machine.run state actions).handledAtStart := by
  have hwaits : ∀ {state : WatchRun}, machine.Reachable state → state.loop = .waiting →
      state.handledAtStart < state.handled → state.refreshNow.queued ≠ [] := by
    intro state hreach hloop hlater
    rcases signalled hreach hlater with hqueued | hwoken | hstopped
    · exact hqueued
    · simp [hloop] at hwoken
    · simp [hloop] at hstopped
  refine ⟨hwaits hreach, fun actions hlegal hloop hempty ↦ ?_⟩
  by_contra hless
  have hhandled := state.handled_le_run actions
  exact hwaits (hreach.run hlegal) hloop (by omega) hempty

end WatchRun

/-- A notification comes while a refresh runs, and the ticker ends the wait after it. -/
def exampleWatch : List WatchAction :=
  [.connect, .refresh, .message 0 "accountNotification", .signal 0, .refreshed, .tick, .refresh,
    .refreshed]

theorem no_lost_notification_example :
    (WatchRun.machine.run WatchRun.machine.init (exampleWatch.take 5)).loop = .waiting ∧
      (WatchRun.machine.run WatchRun.machine.init (exampleWatch.take 5)).refreshNow.queued ≠ [] ∧
      (WatchRun.machine.run WatchRun.machine.init exampleWatch).handledAtStart = 1 := by
  have hlegal : WatchRun.machine.Legal WatchRun.machine.init (exampleWatch.take 5) := by decide
  have hloop : (WatchRun.machine.run WatchRun.machine.init (exampleWatch.take 5)).loop = .waiting := by
    decide
  exact ⟨hloop, (WatchRun.no_lost_notification (Machine.Reachable.init.run hlegal)).1 hloop (by decide),
    by decide⟩

end Mosey.WalletSolana
