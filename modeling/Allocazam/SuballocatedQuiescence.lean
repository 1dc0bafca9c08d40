import Allocazam.PoolSession
import Allocazam.RunnerDeterminacy
import Allocazam.SuballocatedClassifier
import Allocazam.SuballocatedWhereabouts

/-!
# Nothing is left behind

What no user holds and no cache has comes back whole: once its remote stack is drained, a
runner has one free run in each chunk and a pool has all its nodes in the free list.
-/

namespace Allocazam

namespace Runner

variable {cfg : Config} {s : State} {blocks : List Block} {session : Session}

/-- Every chunk is one free run. -/
def State.Whole (s : State) : Prop :=
  ∀ chunk ∈ s.chunks,
    s.runsIn chunk = [⟨chunk.first, chunk.bytes - epilogueSize, .free⟩]

theorem HeapOk.whole_iff (heap : HeapOk cfg s blocks) :
    s.Whole ↔ ∀ addr size, ¬ s.Allocated addr size := by
  constructor
  · rintro whole addr size ⟨chunk, member, inChunk⟩
    rw [whole chunk member, List.mem_singleton] at inChunk
    cases congrArg Block.kind inChunk
  · exact fun empty chunk member => runsIn_of_unallocated heap empty member

/-- A runner comes back whole exactly when everything was released. -/
theorem SessionOk.drained_whole_iff (ok : SessionOk cfg session) :
    (session.state.drainRemote cfg).1.Whole ↔ session.live = [] := by
  constructor
  · intro whole
    obtain ⟨runs, parked, runner, held⟩ := ok
    obtain ⟨blocks, heap, used⟩ := (drainRemote_spec runner).2.2.ok.heap
    refine List.eq_nil_iff_forall_not_mem.mpr fun allocation listed => ?_
    obtain ⟨run, member, same, _⟩ := held.covered allocation listed
    have kept : run ∈ usedRuns blocks := by
      rw [used]
      exact ⟨member, same ▸ held.unparked allocation listed⟩
    refine heap.whole_iff.mp whole run.addr run.size (heap.allocated_iff.mpr ?_)
    rwa [← kept.2]
  · intro nothing
    have everything : (([] : List Release).filterMap Release.payload).Perm
        (session.live.map Allocation.payload) := by
      rw [nothing]
      exact .nil
    obtain ⟨blocks, heap, used⟩ := (ok.released everything).heap
    refine heap.whole_iff.mpr fun addr size allocated => ?_
    rw [heap.allocated_iff, used] at allocated
    exact allocated

end Runner

namespace Pool

variable {cfg : Config} {slots : Nat} {deferred : Bool} {session : Session}
  {free parked : List Nat}

/-- The free list has all nodes. -/
def State.Whole (cfg : Config) (s : State) : Prop :=
  ∃ free, IsStack s.mem s.freeHead free ∧ free.Perm (s.nodes cfg)

/-- A pool comes back whole exactly when all its nodes were released. -/
theorem SessionOk.drained_whole_iff
    (ok : SessionOk cfg slots deferred session free parked) :
    session.state.drainRemote.1.Whole cfg ↔ session.live = [] := by
  obtain ⟨_, drained, _⟩ := ok.balanced.drainRemote
  have nodes := drained.perm
  rw [List.append_nil, List.append_nil] at nodes
  constructor
  · rintro ⟨listed, stack, whole⟩
    rw [stack.unique drained.stack] at whole
    have counted := (nodes.trans whole.symm).length_eq
    rw [List.length_append] at counted
    exact List.length_eq_zero_iff.mp (by omega)
  · intro nothing
    rw [nothing, List.append_nil] at nodes
    exact ⟨_, drained.stack, nodes⟩

end Pool

namespace Suballocated

variable {Value Thread Bound : Type} {fam : Family Value Thread Bound}
  {live : List (Item fam)} {w : World Value Thread Bound}
  {ledger : Ledger Value Thread Bound} {session : Session fam}
  {site : Site Value Thread Bound}

namespace WorldOk

variable (ok : WorldOk fam w live ledger)

include ok

theorem node_of_held {item : Item fam} (member : item ∈ live)
    (holds : w.HoldsNode fam site item.ptr) : item.ptr ∈ ledger.nodes site := by
  rcases ok.item_kind member with ⟨_, owner, node, _⟩ | ⟨_, owner, run, _⟩
  · obtain rfl := ok.holdsNode_unique holds (ok.holdsNode_of_node node)
    exact node
  · exact absurd (ok.holdsRun_iff.mpr (Or.inl run)) (ok.holdsNode_not_run holds)

theorem run_of_held {item : Item fam} (member : item ∈ live)
    (holds : w.HoldsRun site item.ptr) : ledger.HasRun site item.ptr := by
  rcases ok.item_kind member with ⟨_, owner, node, _⟩ | ⟨_, owner, run, _⟩
  · exact absurd holds (ok.holdsNode_not_run (ok.holdsNode_of_node node))
  · obtain rfl := ok.holdsRun_unique holds (ok.holdsRun_iff.mpr (Or.inl run))
    exact run

theorem hasRun_of_cached {value : Value} {thread : Thread} {idx p : Nat}
    (cached : w.Cached value thread idx p) (holds : w.HoldsRun site p) :
    ledger.HasRun site p := by
  obtain ⟨owner, run⟩ := ok.run_of_cached (ok.cached_iff.mp cached)
  obtain rfl := ok.holdsRun_unique holds (ok.holdsRun_iff.mpr (Or.inl run))
  exact run

theorem nodes_eq_nil (moored : ledger.Moored) :
    ledger.nodes site = [] ↔
      ∀ item ∈ live, ¬ w.HoldsNode fam site item.ptr := by
  constructor
  · intro none item member holds
    have node := ok.node_of_held member holds
    rw [none] at node
    cases node
  · intro idle
    refine List.eq_nil_iff_forall_not_mem.mpr fun p node => ?_
    have placed := (ok.placed p).mpr (Or.inl ⟨site, node⟩)
    cases place : ledger.place p with
    | none => exact placed place
    | some x =>
        cases x with
        | held =>
            obtain ⟨item, member, rfl⟩ := (ok.held p).mp place
            exact idle item member (ok.holdsNode_of_node node)
        | cached value thread idx =>
            exact ok.nodes site p node value thread idx place
        | adrift => exact moored p place

theorem runs_eq_nil (moored : ledger.Moored) :
    ledger.runs site = [] ↔
      (∀ item ∈ live, ¬ w.HoldsRun site item.ptr) ∧
        ∀ value thread idx p, w.Cached value thread idx p →
          ¬ w.HoldsRun site p := by
  constructor
  · intro none
    have never : ∀ p, ¬ ledger.HasRun site p := by
      rintro p ⟨allocation, member, _⟩
      rw [none] at member
      cases member
    exact ⟨fun item member holds => never _ (ok.run_of_held member holds),
      fun value thread idx p cached holds => never p (ok.hasRun_of_cached cached holds)⟩
  · rintro ⟨unheld, uncached⟩
    refine List.eq_nil_iff_forall_not_mem.mpr fun allocation member => ?_
    have run : ledger.HasRun site allocation.payload := ⟨allocation, member, rfl⟩
    have holds := ok.holdsRun_iff.mpr (Or.inl run)
    have placed := (ok.placed allocation.payload).mpr (Or.inr ⟨site, run⟩)
    cases place : ledger.place allocation.payload with
    | none => exact placed place
    | some x =>
        cases x with
        | held =>
            obtain ⟨item, inLive, same⟩ := (ok.held _).mp place
            exact unheld item inLive (same ▸ holds)
        | cached value thread idx =>
            exact uncached value thread idx _ (ok.cached_iff.mpr place) holds
        | adrift => exact moored _ place

end WorldOk

theorem SessionOk.not_cached (ok : SessionOk session ledger) {value : Value}
    {thread : Thread} {idx p : Nat}
    (gone : session.exited value thread = true ∨ ∀ idx < tlsRunClassCount,
      (session.world.classes value thread idx).head = 0) :
    ¬ session.world.Cached value thread idx p := by
  intro cached
  have place := ok.world.cached_iff.mp cached
  obtain ⟨inClasses, present⟩ := ok.cached p value thread idx place
  rcases gone with exited | null
  · rw [present] at exited
    cases exited
  · obtain ⟨entries, stack, listed⟩ := cached
    rw [stack.eq_nil_iff.mpr (null idx inClasses)] at listed
    cases listed

variable [DecidableEq Value] [DecidableEq Thread] [DecidableEq Bound]

/-- In every session that lost no run, a drained pool is whole exactly when no user holds
a node of it, and a drained runner exactly when no user holds and no cache has a run of it;
so at the end, when everything is freed and the threads have exited or have empty caches,
all of them are whole. -/
theorem drained_whole
    (reachable : (permittedSessions fam Careful).Reachable session) :
    (∀ site, session.world.created site = true →
      ((session.world.pool site).drainRemote.1.Whole (fam.poolConfig site) ↔
        ∀ item ∈ session.live, ¬ session.world.HoldsNode fam site item.ptr)) ∧
    (∀ site, ((session.world.runs site).drainRemote (fam.runsConfig site)).1.Whole ↔
      (∀ item ∈ session.live, ¬ session.world.HoldsRun site item.ptr) ∧
        ∀ value thread idx p, session.world.Cached value thread idx p →
          ¬ session.world.HoldsRun site p) ∧
    (session.live = [] →
      (∀ value thread, session.exited value thread = true ∨
        ∀ idx < tlsRunClassCount, (session.world.classes value thread idx).head = 0) →
      ∀ site, (session.world.created site = true →
          (session.world.pool site).drainRemote.1.Whole (fam.poolConfig site)) ∧
        ((session.world.runs site).drainRemote (fam.runsConfig site)).1.Whole) := by
  obtain ⟨ledger, ok, moored⟩ := careful_inductive.reachable reachable
  have pools : ∀ site, session.world.created site = true →
      ((session.world.pool site).drainRemote.1.Whole (fam.poolConfig site) ↔
        ∀ item ∈ session.live, ¬ session.world.HoldsNode fam site item.ptr) := by
    intro site created
    obtain ⟨_, _, _, _, pool⟩ := ok.world.poolOk created
    exact pool.drained_whole_iff.trans (ok.world.nodes_eq_nil moored)
  have runners : ∀ site,
      ((session.world.runs site).drainRemote (fam.runsConfig site)).1.Whole ↔
        (∀ item ∈ session.live, ¬ session.world.HoldsRun site item.ptr) ∧
          ∀ value thread idx p, session.world.Cached value thread idx p →
            ¬ session.world.HoldsRun site p := fun site =>
    (ok.world.runsOk site).drained_whole_iff.trans (ok.world.runs_eq_nil moored)
  refine ⟨pools, runners, fun freed gone site => ⟨fun created => ?_, ?_⟩⟩
  · refine (pools site created).mpr fun item member => ?_
    rw [freed] at member
    cases member
  · refine (runners site).mpr ⟨fun item member => ?_,
      fun value thread idx p cached => absurd cached (ok.not_cached (gone value thread))⟩
    rw [freed] at member
    cases member

/-- The other thread frees the run of `fixedSession`. -/
def freedSession : Session fixedFamily :=
  fixedSession.perform
    (.deallocate ⟨false, fixedHandle, 2, 2, 65552⟩ fixedHandle true 2)

/-- Then all threads exit. -/
def endedSession : Session fixedFamily :=
  (((freedSession.perform (.exit false true)).perform (.exit false false)).perform
    (.exit true true)).perform (.exit true false)

theorem endedSession_careful :
    (permittedSessions fixedFamily Careful).Reachable endedSession := by
  have begun : (permittedSessions fixedFamily Careful).Reachable
      (sampleStart fixedFamily) := .start ⟨_, rfl⟩
  have keeps : Careful (sampleStart fixedFamily)
      (.allocate fixedHandle false sampleEnvironment 2) := by
    rintro ⟨_, _, _, _, _, _, _, dynamic, _⟩
    cases dynamic
  have allocated : (permittedSessions fixedFamily Careful).Reachable fixedSession :=
    .step begun (.call _ (sampleStart_permits rfl false false (by decide)) keeps)
  have freed : (permittedSessions fixedFamily Careful).Reachable freedSession :=
    .step allocated (.call _ fixedSession_frees id)
  have exits : ∀ session value thread,
      (permittedSessions fixedFamily Careful).Reachable session →
      session.exited value thread = false →
      (permittedSessions fixedFamily Careful).Reachable
        (session.perform (.exit value thread)) := fun _ value thread before alive =>
    .step before (.call (.exit value thread) alive id)
  have alive : ∀ value thread, freedSession.exited value thread = false :=
    fun value thread => Session.alive_perform_deallocate (fixedSession_alive value thread)
  refine exits _ true false (exits _ true true (exits _ false false (exits _ false true freed
    (alive false true)) ?_) ?_) ?_
  · exact Session.alive_perform_exit (alive false false) (by decide)
  · exact Session.alive_perform_exit
      (Session.alive_perform_exit (alive true true) (by decide)) (by decide)
  · exact Session.alive_perform_exit (Session.alive_perform_exit
      (Session.alive_perform_exit (alive true false) (by decide)) (by decide)) (by decide)

/-- The run is back with its runner. -/
theorem endedSession_whole :
    ((endedSession.world.runs (.thread false false)).drainRemote
      (fixedFamily.runsConfig (.thread false false))).1.Whole := by
  have exited : ∀ value thread, endedSession.exited value thread = true := by
    decide +kernel
  have freed : endedSession.live = [] :=
    List.eq_nil_of_length_eq_zero (by decide +kernel)
  exact ((drained_whole endedSession_careful).2.2 freed
    (fun value thread => Or.inl (exited value thread)) (.thread false false)).2

end Suballocated

end Allocazam
