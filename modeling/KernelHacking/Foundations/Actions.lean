/-
Module: KernelHacking.Foundations.Actions
Layer: Foundations
Purpose: Runs of a system that is given by a partial step function on states and actions. A run may be
  restricted to actions that meet a condition on the state they are taken in. An invariant that every
  allowed action keeps holds in every state of every such run, and a list of actions that the step
  function performs is a run.
Imports: none (Mathlib-free)
Trusted boundary: none (fully proved)
Main exports: RunWhere, Run, perform, performWhere, RunWhere.invariant, Run.perform, RunWhere.perform
Open obligations: none
-/

namespace KernelHacking.Actions

variable {State Action : Type} {step : State → Action → Option State}
  {allowed : State → Action → Prop} {start : State}

/-- The runs in which every action meets a condition, with the actions in order. -/
inductive RunWhere (step : State → Action → Option State) (allowed : State → Action → Prop)
    (start : State) : List Action → State → Prop where
  | start : RunWhere step allowed start [] start
  | step {actions : List Action} {before after : State} {action : Action}
      (run : RunWhere step allowed start actions before) (meets : allowed before action)
      (moved : step before action = some after) :
      RunWhere step allowed start (actions ++ [action]) after

/-- All runs. -/
abbrev Run (step : State → Action → Option State) (start : State) : List Action → State → Prop :=
  RunWhere step (fun _ _ => True) start

/-- Perform actions one after the other. -/
def perform (step : State → Action → Option State) : List Action → State → Option State
  | [], state => some state
  | action :: rest, state => (step state action).bind (perform step rest)

/-- Perform actions as long as each of them meets a condition. -/
def performWhere (step : State → Action → Option State) (allowed : State → Action → Prop)
    [∀ state action, Decidable (allowed state action)] : List Action → State → Option State
  | [], state => some state
  | action :: rest, state =>
      if allowed state action then (step state action).bind (performWhere step allowed rest) else none

theorem perform_append (first second : List Action) (state : State) :
    perform step (first ++ second) state = (perform step first state).bind (perform step second) := by
  induction first generalizing state with
  | nil => rfl
  | cons action rest inductionHypothesis =>
      simp only [List.cons_append, perform]
      cases step state action with
      | none => rfl
      | some after => exact inductionHypothesis after

/-- What every allowed action keeps holds in every state of every run. -/
theorem RunWhere.invariant {Holds : State → Prop} (initial : Holds start)
    (kept : ∀ before action after, Holds before → allowed before action →
      step before action = some after → Holds after)
    {actions : List Action} {state : State} (run : RunWhere step allowed start actions state) :
    Holds state := by
  induction run with
  | start => exact initial
  | step _ meets moved inductionHypothesis => exact kept _ _ _ inductionHypothesis meets moved

/-- A run goes on with the actions that are performed after it. -/
theorem Run.perform {actions more : List Action} {state after : State}
    (run : Run step start actions state) (performed : perform step more state = some after) :
    Run step start (actions ++ more) after := by
  induction more generalizing actions state with
  | nil =>
      cases performed
      rw [List.append_nil]
      exact run
  | cons action rest inductionHypothesis =>
      obtain ⟨middle, moved, performedRest⟩ := Option.bind_eq_some_iff.mp performed
      rw [← List.singleton_append, ← List.append_assoc]
      exact inductionHypothesis (run.step trivial moved) performedRest

/-- A restricted run goes on with allowed actions that are performed after it. -/
theorem RunWhere.perform [∀ state action, Decidable (allowed state action)]
    {actions more : List Action} {state after : State}
    (run : RunWhere step allowed start actions state)
    (performed : performWhere step allowed more state = some after) :
    RunWhere step allowed start (actions ++ more) after := by
  induction more generalizing actions state with
  | nil =>
      cases performed
      rw [List.append_nil]
      exact run
  | cons action rest inductionHypothesis =>
      rw [performWhere] at performed
      split at performed
      · rename_i meets
        obtain ⟨middle, moved, performedRest⟩ := Option.bind_eq_some_iff.mp performed
        rw [← List.singleton_append, ← List.append_assoc]
        exact inductionHypothesis (run.step meets moved) performedRest
      · cases performed

end KernelHacking.Actions
