import Mathlib.Logic.Relation

/-!
# Transition systems

A system of states that evolves by steps from a set of start states.  What
holds at the start and is kept by every step holds in every reachable state.
-/

namespace Allocazam

structure TransitionSystem (State : Type*) where
  start : State → Prop
  step : State → State → Prop

namespace TransitionSystem

variable {State : Type*} (system : TransitionSystem State)

/-- The states of the runs of the system. -/
inductive Reachable : State → Prop
  | start {s : State} (begins : system.start s) : Reachable s
  | step {s t : State} (before : Reachable s) (moves : system.step s t) :
      Reachable t

/-- A property of the start states that every step keeps. -/
structure Inductive (holds : State → Prop) : Prop where
  start : ∀ s, system.start s → holds s
  step : ∀ s t, holds s → system.step s t → holds t

variable {system} {holds : State → Prop}

theorem Inductive.reachable (invariant : system.Inductive holds) {s : State}
    (reachable : system.Reachable s) : holds s := by
  induction reachable with
  | start begins => exact invariant.start _ begins
  | step before moves ih => exact invariant.step _ _ ih moves

theorem Reachable.steps {s t : State} (before : system.Reachable s)
    (run : Relation.ReflTransGen system.step s t) : system.Reachable t := by
  induction run with
  | refl => exact before
  | tail _ moves ih => exact .step ih moves

end TransitionSystem

end Allocazam
