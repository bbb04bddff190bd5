import Mathlib.Data.List.Basic

/-!
# Guarded machines

A machine has one initial state, a total step function and a guard that says which action may be
taken in which state. Runs are lists of actions, and a run is legal when each of its actions is
allowed in the state it is taken in. Safety results are proved once for every reachable state by
`Reachable.invariant`; results about two states of one run use `run_related`. Restricting the guard
gives the runs in which every step meets a further condition.
-/

namespace Mosey.Library

structure Machine (State Action : Type*) where
  init : State
  allowed : State → Action → Prop
  step : State → Action → State

namespace Machine

variable {State Action : Type*} (machine : Machine State Action)

def run (state : State) (actions : List Action) : State :=
  actions.foldl machine.step state

/-- Every action of the run is allowed in the state it is taken in. -/
def Legal : State → List Action → Prop
  | _, [] => True
  | state, action :: rest =>
    machine.allowed state action ∧ Legal (machine.step state action) rest

/-- The states that legal runs from the initial state end in. -/
inductive Reachable : State → Prop
  | init : Reachable machine.init
  | step {state : State} {action : Action} :
      Reachable state → machine.allowed state action → Reachable (machine.step state action)

/-- The runs of `machine` in which every step also meets `condition`. -/
def restrict (condition : State → Action → Prop) : Machine State Action where
  init := machine.init
  allowed state action := machine.allowed state action ∧ condition state action
  step := machine.step

/-- Every step of the run meets `condition`. -/
def Along (condition : State → Action → Prop) : State → List Action → Prop
  | _, [] => True
  | state, action :: rest =>
    condition state action ∧ Along condition (machine.step state action) rest

instance Along.decidable (condition : State → Action → Prop)
    [∀ state action, Decidable (condition state action)] :
    (state : State) → (actions : List Action) → Decidable (machine.Along condition state actions)
  | _, [] => .isTrue trivial
  | state, action :: rest =>
    have := Along.decidable condition (machine.step state action) rest
    inferInstanceAs (Decidable
      (condition state action ∧ machine.Along condition (machine.step state action) rest))

instance Legal.decidable [∀ state action, Decidable (machine.allowed state action)] :
    (state : State) → (actions : List Action) → Decidable (machine.Legal state actions)
  | _, [] => .isTrue trivial
  | state, action :: rest =>
    have := Legal.decidable (machine.step state action) rest
    inferInstanceAs (Decidable
      (machine.allowed state action ∧ machine.Legal (machine.step state action) rest))

variable {condition : State → Action → Prop} {actions : List Action} {state : State}

/-- A run whose actions meet the condition is a run of the restricted machine. -/
theorem legal_restrict (hlegal : machine.Legal state actions)
    (halong : machine.Along condition state actions) :
    (machine.restrict condition).Legal state actions := by
  induction actions generalizing state with
  | nil => trivial
  | cons action rest ih => exact ⟨⟨hlegal.1, halong.1⟩, ih hlegal.2 halong.2⟩

@[simp] theorem run_nil (state : State) : machine.run state [] = state := rfl

@[simp] theorem run_cons (state : State) (action : Action) (rest : List Action) :
    machine.run state (action :: rest) = machine.run (machine.step state action) rest := rfl

/-- A run in two parts. -/
theorem run_append (state : State) (first second : List Action) :
    machine.run state (first ++ second) = machine.run (machine.run state first) second := by
  simp [run, List.foldl_append]

/-- A run is legal if its first part is, and its second part from where the first one ends. -/
theorem legal_append (state : State) (first second : List Action) :
    machine.Legal state (first ++ second) ↔
      machine.Legal state first ∧ machine.Legal (machine.run state first) second := by
  induction first generalizing state with
  | nil => simp [Legal]
  | cons action rest ih => simp [Legal, ih, and_assoc]

variable {machine}

/-- An invariant of the initial state and of every allowed step holds in every reachable state. -/
theorem Reachable.invariant {P : State → Prop} (hreach : machine.Reachable state)
    (hinit : P machine.init) (hstep : ∀ state action, machine.Reachable state → P state →
      machine.allowed state action → P (machine.step state action)) : P state := by
  induction hreach with
  | init => exact hinit
  | step hbefore hallowed ih => exact hstep _ _ hbefore ih hallowed

theorem Reachable.run (hreach : machine.Reachable state) (hlegal : machine.Legal state actions) :
    machine.Reachable (machine.run state actions) := by
  induction actions generalizing state with
  | nil => exact hreach
  | cons action rest ih => exact ih (hreach.step hlegal.1) hlegal.2

/-- A reflexive and transitive relation kept by every allowed step relates the two ends of every
legal run that starts in a reachable state. -/
theorem run_related {related : State → State → Prop} (hrefl : ∀ state, related state state)
    (htrans : ∀ first second third, related first second → related second third →
      related first third)
    (hstep : ∀ state action, machine.Reachable state → machine.allowed state action →
      related state (machine.step state action)) (hreach : machine.Reachable state)
    (hlegal : machine.Legal state actions) : related state (machine.run state actions) := by
  induction actions generalizing state with
  | nil => exact hrefl state
  | cons action rest ih =>
    exact htrans _ _ _ (hstep _ _ hreach hlegal.1) (ih (hreach.step hlegal.1) hlegal.2)

theorem Reachable.of_restrict (hreach : (machine.restrict condition).Reachable state) :
    machine.Reachable state := by
  induction hreach with
  | init => exact .init
  | step _ hallowed ih => exact ih.step hallowed.1

theorem legal_of_restrict (hlegal : (machine.restrict condition).Legal state actions) :
    machine.Legal state actions := by
  induction actions generalizing state with
  | nil => trivial
  | cons action rest ih => exact ⟨hlegal.1.1, ih hlegal.2⟩

end Machine

end Mosey.Library
