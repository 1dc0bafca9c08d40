import Allocazam.SuballocatedObservation

/-!
# Whereabouts of runs

A run that a runner has marked allocated is with a user, on a class list of a
thread's cache or on the runner's remote stack, unless a call lost it.
-/

namespace Allocazam

namespace Suballocated

variable {Value Thread Bound : Type} {fam : Family Value Thread Bound}
  {w : World Value Thread Bound} {live : List (Item fam)}
  {ledger : Ledger Value Thread Bound} {session : Session fam}
  {site : Site Value Thread Bound} {p : Nat}

/-- Where an allocated run may be. -/
inductive Whereabouts (Value Thread : Type) where
  | held
  | cached (value : Value) (thread : Thread) (idx : Nat)
  | parked
  deriving DecidableEq

/-- The run of the state's runner is there.  Only threads that have not exited
have caches. -/
def Session.At (session : Session fam) (site : Site Value Thread Bound)
    (p : Nat) : Whereabouts Value Thread → Prop
  | .held => ∃ item ∈ session.live, item.ptr = p
  | .cached value thread idx =>
      session.world.Cached value thread idx p ∧ idx < tlsRunClassCount ∧
        session.exited value thread = false
  | .parked => session.world.Parked site p

def Session.Accounted (session : Session fam) (site : Site Value Thread Bound) :
    Prop :=
  ∀ p, session.world.HoldsRun site p → ∃ x, session.At site p x

def Ledger.Moored (ledger : Ledger Value Thread Bound) : Prop :=
  ∀ p, ledger.place p ≠ some .adrift

theorem WorldOk.parked_not_out (ok : WorldOk fam w live ledger)
    (parked : w.Parked site p) : ¬ ledger.Out p := by
  have holds := ok.holdsRun_iff.mpr (Or.inr parked)
  rintro (⟨owner, node⟩ | ⟨owner, run⟩)
  · exact ok.holdsNode_not_run (ok.holdsNode_of_node node) holds
  · obtain rfl := ok.holdsRun_unique (ok.holdsRun_iff.mpr (Or.inl run)) holds
    exact ok.parked_not_run parked run

namespace SessionOk

variable (ok : SessionOk session ledger)

include ok

theorem at_cached {value : Value} {thread : Thread} {idx : Nat} :
    session.At site p (.cached value thread idx) ↔
      ledger.place p = some (.cached value thread idx) := by
  constructor
  · rintro ⟨cached, _⟩
    exact ok.world.cached_iff.mp cached
  · exact fun place => ⟨ok.world.cached_iff.mpr place,
      ok.cached p value thread idx place⟩

theorem at_held : session.At site p .held ↔ ledger.place p = some .held :=
  (ok.world.held p).symm

/-- If nothing is adrift, an allocated run is in exactly one place. -/
theorem whereabouts (moored : ledger.Moored)
    (holds : session.world.HoldsRun site p) : ∃! x, session.At site p x := by
  have world := ok.world
  rcases world.holdsRun_iff.mp holds with run | parked
  · have notParked : ¬ session.At site p .parked := fun parked =>
      world.parked_not_run parked run
    have placed := (world.placed p).mpr (Or.inr ⟨site, run⟩)
    cases place : ledger.place p with
    | none => exact absurd place placed
    | some x =>
        cases x with
        | held =>
            refine ⟨.held, ok.at_held.mpr place, fun y here => ?_⟩
            cases y with
            | held => rfl
            | cached value thread idx =>
                rw [ok.at_cached, place] at here
                cases here
            | parked => exact absurd here notParked
        | cached value thread idx =>
            refine ⟨.cached value thread idx, ok.at_cached.mpr place,
              fun y here => ?_⟩
            cases y with
            | held =>
                rw [ok.at_held, place] at here
                cases here
            | cached value' thread' idx' =>
                rw [ok.at_cached, place] at here
                cases here
                rfl
            | parked => exact absurd here notParked
        | adrift => exact absurd place (moored p)
  · have notPlaced : ledger.place p = none := by
      by_contra placed
      exact world.parked_not_out parked ((world.placed p).mp placed)
    refine ⟨.parked, parked, fun y here => ?_⟩
    cases y with
    | held =>
        rw [ok.at_held, notPlaced] at here
        cases here
    | cached value thread idx =>
        rw [ok.at_cached, notPlaced] at here
        cases here
    | parked => rfl

theorem nowhere (run : ledger.HasRun site p)
    (adrift : ledger.place p = some .adrift) (x : Whereabouts Value Thread) :
    ¬ session.At site p x := by
  intro here
  cases x with
  | held =>
      rw [ok.at_held, adrift] at here
      cases here
  | cached value thread idx =>
      rw [ok.at_cached, adrift] at here
      cases here
  | parked => exact ok.world.parked_not_run here run

end SessionOk

variable [DecidableEq Value] [DecidableEq Thread] [DecidableEq Bound]

/-- The steps of a session, with permitted calls only. -/
inductive PermittedSteps (fam : Family Value Thread Bound)
    (permits : Session fam → Operation fam → Prop) :
    Session fam → Session fam → Prop
  | call {session : Session fam} (operation : Operation fam)
      (allowed : session.Allows operation)
      (permitted : permits session operation) :
      PermittedSteps fam permits session (session.perform operation)
  | store {session : Session fam} (addr value : Nat)
      (writable : session.Writable addr) :
      PermittedSteps fam permits session
        { session with world := session.world.write addr value }
  | elsewhere {session : Session fam} (addr value : Nat)
      (unused : addr ∉ session.world.inUse fam) :
      PermittedSteps fam permits session
        { session with world := session.world.write addr value }

def permittedSessions (fam : Family Value Thread Bound)
    (permits : Session fam → Operation fam → Prop) :
    TransitionSystem (Session fam) where
  start := (sessions fam).start
  step := PermittedSteps fam permits

theorem permitted_reachable {permits : Session fam → Operation fam → Prop}
    (reachable : (permittedSessions fam permits).Reachable session) :
    (sessions fam).Reachable session := by
  induction reachable with
  | start begins => exact .start begins
  | step before moves ih =>
      apply TransitionSystem.Reachable.step ih
      cases moves with
      | call operation allowed permitted => exact .call operation allowed
      | store addr value writable => exact .store addr value writable
      | elsewhere addr value unused => exact .elsewhere addr value unused

/-- The calls that lose no run. -/
def Careful (session : Session fam) (operation : Operation fam) : Prop :=
  ¬ operation.LosesRun session.world

/-- In careful sessions nothing is ever adrift. -/
theorem careful_inductive :
    (permittedSessions fam Careful).Inductive fun session =>
      ∃ ledger, SessionOk session ledger ∧ ledger.Moored where
  start session starts := by
    obtain ⟨mem, rfl⟩ := starts
    exact ⟨.blank, ⟨worldOk_initial mem, by simp [Ledger.blank]⟩,
      by simp [Ledger.Moored, Ledger.blank]⟩
  step session session' := by
    rintro ⟨ledger, ok, moored⟩ step
    cases step with
    | call operation allowed permitted =>
        obtain ⟨next, after, settled⟩ := ok.call allowed
        exact ⟨next, after, fun p adrift =>
          moored p (settled permitted p adrift)⟩
    | store addr value writable => exact ⟨ledger, ok.store value writable, moored⟩
    | elsewhere addr value unused =>
        exact ⟨ledger, ok.elsewhere value unused, moored⟩

end Suballocated

end Allocazam
