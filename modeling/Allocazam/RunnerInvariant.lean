import Allocazam.RunnerChunks
import Allocazam.RunnerSearch

/-!
# The runner invariant

A runner is legal when its memory carries a layout, its remote stack lists
allocated runs and its size members are words.  Every public operation keeps
the invariant; its specification says which runs are allocated afterwards, what
is parked and whose contents are kept.
-/

namespace Allocazam

namespace Runner

variable {cfg : Config} {s t : State} {blocks : List Block} {runs : Set Block}
  {parked : List Nat}

/-- The runner with the allocated runs `runs`, of which those with payloads
`parked` wait on the remote stack. -/
structure RunnerOk (cfg : Config) (s : State) (runs : Set Block)
    (parked : List Nat) : Prop where
  heap : ∃ blocks, HeapOk cfg s blocks ∧ usedRuns blocks = runs
  stack : IsStack s.mem s.remoteHead parked
  parkedRuns : ∀ p ∈ parked, ∃ run ∈ runs, run.addr + 16 = p
  growth : s.nextGrowth < 2 ^ 64
  deferred : s.deferredBytes < 2 ^ 64

def withoutPayloads (runs : Set Block) (payloads : List Nat) : Set Block :=
  {run | run ∈ runs ∧ run.addr + 16 ∉ payloads}

theorem withoutPayloads_nil : withoutPayloads runs [] = runs := by
  simp [withoutPayloads]

theorem withoutPayloads_sdiff {run : Block} {payloads : List Nat}
    (unique : ∀ other ∈ runs, other.addr = run.addr → other = run) :
    withoutPayloads (runs \ {run}) payloads =
      withoutPayloads runs ((run.addr + 16) :: payloads) := by
  ext other
  simp only [withoutPayloads, Set.mem_ofPred_eq, Set.mem_sdiff,
    Set.mem_singleton_iff, List.mem_cons, not_or]
  constructor
  · rintro ⟨⟨member, different⟩, unlisted⟩
    exact ⟨member, fun same => different (unique other member (by omega)),
      unlisted⟩
  · rintro ⟨member, different, unlisted⟩
    exact ⟨⟨member, fun same => different (by rw [same])⟩, unlisted⟩

theorem withoutPayloads_subset : withoutPayloads runs parked ⊆ runs :=
  fun _ member => member.1

/-- A step to a legal runner with the given runs and parked payloads. -/
structure RunnerStep (cfg : Config) (s t : State) (kept runs : Set Block)
    (parked : List Nat) : Prop extends Effect s t kept where
  ok : RunnerOk cfg t runs parked

theorem RunnerStep.mono {kept kept' : Set Block}
    (step : RunnerStep cfg s t kept runs parked) (subset : kept' ⊆ kept) :
    RunnerStep cfg s t kept' runs parked :=
  ⟨step.toEffect.mono subset, step.ok⟩

/-- Following a step that ends with the runs `runs` by one that keeps them. -/
theorem RunnerStep.trans {r : State} {runs' : Set Block} {parked' : List Nat}
    {kept : Set Block} (first : RunnerStep cfg s t runs runs parked)
    (second : RunnerStep cfg t r kept runs' parked') (subset : kept ⊆ runs) :
    RunnerStep cfg s r kept runs' parked' :=
  ⟨(first.toEffect.trans second.toEffect).mono
    fun _ member => ⟨subset member, member⟩, second.ok⟩

theorem RunnerOk.large {parked : List Nat} (ok : RunnerOk cfg s runs parked)
    {run : Block} (member : run ∈ runs) : 48 ≤ run.size := by
  obtain ⟨blocks, heap, rfl⟩ := ok.heap
  exact (heap.layout.sizes run member.1 (by rw [member.2]; decide)).1

namespace RunnerOk

variable (ok : RunnerOk cfg s runs parked)

include ok

theorem eq_of_addr_eq {run other : Block} (member : run ∈ runs)
    (otherMember : other ∈ runs) (same : run.addr = other.addr) :
    run = other := by
  obtain ⟨blocks, heap, rfl⟩ := ok.heap
  exact heap.layout.eq_of_addr_eq member.1 otherMember.1 same

/-- A heap step over the same outer members that keeps the parked runs. -/
theorem heapStep {kept runs' : Set Block} {parked' : List Nat}
    (step : HeapStep cfg s t kept runs') (outer : t.outer = s.outer)
    (stack : IsStack t.mem t.remoteHead parked')
    (listed : ∀ p ∈ parked', ∃ run ∈ runs', run.addr + 16 = p) :
    RunnerStep cfg s t kept runs' parked' :=
  ⟨step.toEffect, {
    heap := step.heap
    stack := stack
    parkedRuns := listed
    growth := by
      have same : t.nextGrowth = s.nextGrowth :=
        congrArg (fun members => members.2.1) outer
      rw [same]
      exact ok.growth
    deferred := by
      have same : t.deferredBytes = s.deferredBytes :=
        congrArg (fun members => members.2.2.1) outer
      rw [same]
      exact ok.deferred }⟩

/-- The remote stack survives a step that keeps the parked runs. -/
theorem stack_kept {kept : Set Block} (effect : Effect s t kept)
    (head : t.remoteHead = s.remoteHead)
    (kept_parked : ∀ run ∈ runs, run.addr + 16 ∈ parked → run ∈ kept) :
    IsStack t.mem t.remoteHead parked := by
  rw [head]
  refine ok.stack.congr fun p member => ?_
  obtain ⟨run, runMember, rfl⟩ := ok.parkedRuns p member
  obtain ⟨blocks, heap, rfl⟩ := ok.heap
  have large := (heap.layout.sizes run runMember.1
    (by rw [runMember.2]; decide)).1
  exact effect.keeps run (kept_parked run runMember member) _ (by omega)
    (by unfold Block.stop; omega)

end RunnerOk

def State.deallocateAll (cfg : Config) (s : State) (payloads : List Nat) :
    State :=
  payloads.foldl (fun s p => s.deallocateBytes cfg p) s

/-- The walk over a parked list frees its payloads one by one, in stack
order. -/
theorem drainWalk_spec {head fuel : Nat} (heap : HeapOk cfg s blocks)
    (stack : IsStack s.mem head parked)
    (listed : ∀ p ∈ parked, ∃ run ∈ usedRuns blocks, run.addr + 16 = p)
    (enough : parked.length ≤ fuel) :
    State.drainWalk cfg fuel head s =
        s.deallocateAll cfg parked ∧
      HeapStep cfg s (s.deallocateAll cfg parked)
        (withoutPayloads (usedRuns blocks) parked)
        (withoutPayloads (usedRuns blocks) parked) ∧
      (s.deallocateAll cfg parked).outer =
        s.outer := by
  have nodup := stack.nodup
  induction parked generalizing s blocks head fuel with
  | nil =>
      have null : head = 0 := stack
      rw [withoutPayloads_nil]
      refine ⟨?_, HeapStep.refl heap, rfl⟩
      cases fuel <;> simp [State.drainWalk, State.deallocateAll, null]
  | cons p parked ih =>
      obtain ⟨rfl, nonnull, rest⟩ := stack
      obtain ⟨fresh, nodupRest⟩ := List.nodup_cons.mp nodup
      obtain ⟨run, member, runAddr⟩ := listed head (by simp)
      obtain ⟨step, outer⟩ := deallocateBytes_spec heap member
      rw [runAddr] at step outer
      obtain ⟨new, newHeap, newUsed⟩ := step.heap
      have remaining : ∀ q ∈ parked, ∃ other ∈ usedRuns blocks \ {run},
          other.addr + 16 = q := by
        intro q later
        obtain ⟨other, otherMember, otherAddr⟩ := listed q (by simp [later])
        refine ⟨other, ⟨otherMember, ?_⟩, otherAddr⟩
        rintro rfl
        exact fresh (by rwa [← runAddr, otherAddr])
      have restStack : IsStack (s.deallocateBytes cfg head).mem (s.mem head)
          parked := by
        refine rest.congr fun q later => ?_
        obtain ⟨other, otherMember, rfl⟩ := remaining q later
        have large := (heap.layout.sizes other otherMember.1.1
          (by rw [otherMember.1.2]; decide)).1
        exact step.keeps other otherMember _ (by omega)
          (by unfold Block.stop; omega)
      obtain ⟨fuel, rfl⟩ : ∃ more, fuel = more + 1 :=
        ⟨fuel - 1, by simp at enough; omega⟩
      obtain ⟨walked, restStep, restOuter⟩ := ih newHeap restStack
        (by rw [newUsed]; exact remaining) (by simpa using enough) nodupRest
      have freed : withoutPayloads (usedRuns blocks \ {run}) parked =
          withoutPayloads (usedRuns blocks) (head :: parked) := by
        rw [← runAddr]
        exact withoutPayloads_sdiff fun other otherMember sameAddr =>
          heap.layout.eq_of_addr_eq otherMember.1 member.1 sameAddr
      rw [newUsed, freed] at restStep
      refine ⟨?_, (step.trans restStep).mono fun other inBoth => ⟨?_, inBoth⟩,
        restOuter.trans outer⟩
      · unfold State.drainWalk
        rw [if_neg nonnull]
        exact walked
      · rw [← freed] at inBoth
        exact inBoth.1

/-- The parked list is no longer than the bound of the drain walk. -/
theorem RunnerOk.length_le (ok : RunnerOk cfg s runs parked) :
    parked.length ≤ s.nodeBound := by
  obtain ⟨blocks, heap, rfl⟩ := ok.heap
  have inside : parked ⊆ blocks.map fun block => block.addr + 16 := by
    intro p member
    obtain ⟨run, runMember, rfl⟩ := ok.parkedRuns p member
    exact List.mem_map_of_mem runMember.1
  have counted := (List.subperm_of_subset ok.stack.nodup inside).length_le
  rw [List.length_map] at counted
  exact counted.trans heap.layout.length_le

/-- `_drain_remote` frees every parked run and empties the stack. -/
theorem drainRemote_spec (ok : RunnerOk cfg s runs parked) :
    (s.drainRemote cfg).2 = !parked.isEmpty ∧
      (s.drainRemote cfg).1 =
        State.deallocateAll cfg { s with remoteHead := 0 } parked ∧
      RunnerStep cfg s (s.drainRemote cfg).1 (withoutPayloads runs parked)
        (withoutPayloads runs parked) [] := by
  have enough := ok.length_le
  obtain ⟨blocks, heap, rfl⟩ := ok.heap
  have taken : HeapOk cfg { s with remoteHead := 0 } blocks :=
    heap.congr rfl rfl rfl rfl
  obtain ⟨walked, step, outer⟩ := drainWalk_spec taken
    ok.stack ok.parkedRuns enough
  have sameState : (s.drainRemote cfg).1 = State.deallocateAll cfg
      { s with remoteHead := 0 } parked := by
    rw [← walked]
    unfold State.drainRemote
    dsimp only
    by_cases empty : s.remoteHead = 0
    · rw [if_pos empty]
      cases bound : s.nodeBound <;> simp [State.drainWalk, empty]
    · rw [if_neg empty]
      rfl
  have growth : (State.deallocateAll cfg
      { s with remoteHead := 0 } parked).nextGrowth = s.nextGrowth :=
    congrArg (fun members => members.2.1) outer
  have deferred : (State.deallocateAll cfg
      { s with remoteHead := 0 } parked).deferredBytes = s.deferredBytes :=
    congrArg (fun members => members.2.2.1) outer
  refine ⟨?_, sameState, ?_⟩
  · have emptyIff := ok.stack.eq_nil_iff
    unfold State.drainRemote
    dsimp only
    by_cases empty : s.remoteHead = 0
    · rw [if_pos empty, emptyIff.mpr empty]
      rfl
    · rw [if_neg empty]
      have nonempty : parked ≠ [] := fun none => empty (emptyIff.mp none)
      simp [nonempty]
  · rw [sameState]
    exact ⟨step.toEffect.congr rfl rfl rfl rfl, {
      heap := step.heap
      stack := State.remoteHead_of_outer outer
      parkedRuns := by simp
      growth := by rw [growth]; exact ok.growth
      deferred := by rw [deferred]; exact ok.deferred }⟩

end Runner

end Allocazam
