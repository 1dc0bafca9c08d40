import Allocazam.RunnerRoom
import Allocazam.SuballocatedDrain

/-!
# Runners while the cache is drained

No runner loses a chunk or has a run marked allocated anew while runs of a cache
go back to their owners.
-/

namespace Allocazam

namespace Suballocated

variable {Value Thread Bound : Type} [DecidableEq Value] [DecidableEq Thread]
  [DecidableEq Bound] {fam : Family Value Thread Bound}
  {w : World Value Thread Bound} {live : List (Item fam)}
  {ledger : Ledger Value Thread Bound} {site : Site Value Thread Bound}
  {value : Value} {thread owner : Thread} {idx p : Nat}

namespace WorldOk

variable (ok : WorldOk fam w live ledger)

include ok

theorem call_shrinks {operation : Runner.Operation}
    (callable : Callable fam w ledger site operation)
    (own : (w.runs site).Shrinks (w.callRuns fam ledger site operation).state)
    (other : Site Value Thread Bound) :
    (w.runs other).Shrinks ((w.setRuns site
      (w.callRuns fam ledger site operation).state).runs other) := by
  by_cases same : other = site
  · subst same
    rw [World.setRuns_runs]
    exact own
  · obtain ⟨runs, parked, runner, _⟩ := ok.runsOk other
    have members : (w.setRuns site
        (w.callRuns fam ledger site operation).state).runs other =
        { w.runs other with
          mem := (w.callRuns fam ledger site operation).state.mem } := by
      unfold World.runs
      rw [World.setRuns_runs_of_ne _ same]
      rfl
    have agrees : ∀ addr ∈ w.territory fam (.runs other),
        (w.callRuns fam ledger site operation).state.mem addr = w.mem addr := by
      intro addr owned
      apply ok.tenants.kept (ok.call_moves callable ledger.place)
        (j := .runs other) _ owned
      simpa using same
    have framed := runner.frame agrees
    rw [members]
    exact
      { chunks := fun _ member => member
        allocated := fun addr size marked =>
          runner.allocated_iff.mpr (framed.allocated_iff.mp marked) }

section Return

variable (run : ledger.HasRun (.thread value owner) p)
  (adrift : ledger.place p = some .adrift)

include run adrift

theorem returnRun_shrinks (other : Site Value Thread Bound) :
    (w.runs other).Shrinks ((w.returnRun fam value thread p
      (fam.runsAt (.thread value owner))).runs other) := by
  have frees := ok.callable_deallocateBytes run adrift
  have parks := ok.callable_remotePush run adrift
  obtain ⟨runs, parked, runner, held⟩ := ok.runsOk (.thread value owner)
  obtain ⟨allocation, member, rfl⟩ := run
  obtain ⟨block, listed, addrEq, _⟩ := held.covered allocation member
  have unparked := held.unparked allocation member
  rw [← addrEq] at unparked frees parks ⊢
  unfold World.returnRun
  rw [fam.runsOf_runsAt]
  split
  · exact ok.call_shrinks frees (runner.shrinks
      (Runner.deallocateBytes_step runner listed unparked) Set.sdiff_subset) other
  · exact ok.call_shrinks parks (runner.shrinks
      (Runner.remotePush_step runner listed unparked) subset_rfl) other

end Return

theorem tlsDrainWalk_shrinks {entries : List Nat}
    (cls : ClassOk fam w ledger value thread idx entries)
    (other : Site Value Thread Bound) (keepCount fuel : Nat) :
    (w.runs other).Shrinks ((World.tlsDrainWalk fam value thread idx keepCount
      fuel w).runs other) := by
  induction fuel generalizing w ledger entries with
  | zero => exact .refl _
  | succ fuel ih =>
      unfold World.tlsDrainWalk World.tlsPopAny
      cases entries with
      | nil =>
          rw [if_neg (by rw [cls.count]; simp)]
          exact .refl _
      | cons p back =>
          obtain ⟨owner, allocation, member, payload, _, stamp, _⟩ :=
            cls.owned List.mem_cons_self
          have popped := ok.popHead cls
          have run : (ledger.settle p .adrift).HasRun (.thread value owner) p :=
            ⟨allocation, member, payload⟩
          obtain ⟨next, _, evicted, rest, _⟩ := ok.evict cls
          have returned : (w.runs other).Shrinks
              (((w.setClass value thread idx
                ⟨w.mem p, decrement (w.classes value thread idx).count⟩).returnRun
                  fam value thread p (w.mem (p + 8))).runs other) := by
            rw [stamp]
            exact popped.returnRun_shrinks run (Ledger.settle_self .adrift) other
          split
          · dsimp only
            rw [cls.chain.1, if_neg cls.chain.2.1]
            dsimp only
            rw [if_neg cls.chain.2.1]
            exact returned.trans (ih evicted rest)
          · exact .refl _

theorem tlsDrainAll_shrinks (value : Value) (thread : Thread)
    (other : Site Value Thread Bound) :
    (w.runs other).Shrinks ((w.tlsDrainAll fam value thread).runs other) := by
  unfold World.tlsDrainAll
  induction List.range tlsRunClassCount generalizing w ledger with
  | nil => exact .refl _
  | cons idx indices ih =>
      obtain ⟨entries, cls⟩ := ok.classes value thread idx
      obtain ⟨next, _, drained, _⟩ := ok.tlsDrainClass 0 cls
      have first : (w.runs other).Shrinks
          ((w.tlsDrainClass fam value thread idx 0).runs other) :=
        ok.tlsDrainWalk_shrinks cls other 0 _
      exact first.trans (ih drained)

end WorldOk

end Suballocated

end Allocazam
