import Allocazam.RunnerObservation
import Allocazam.SuballocatedSafety

/-!
# Reading the world off the memory

What a pool, a runner, a class list or a remote stack holds, as far as the
memory and the members show it, and how the ledger of a session agrees with it.
-/

namespace Allocazam

namespace Suballocated

variable {Value Thread Bound : Type} {fam : Family Value Thread Bound}
  {w : World Value Thread Bound} {live : List (Item fam)}
  {ledger : Ledger Value Thread Bound} {site other : Site Value Thread Bound}
  {value : Value} {thread : Thread} {idx p : Nat}

namespace World

variable (fam) (w)

def HoldsNode (site : Site Value Thread Bound) (p : Nat) : Prop :=
  p ∈ (w.states site).pool.nodes (fam.poolConfig site)

omit fam in
/-- The pointer is the payload of a run that the state's runner has marked
allocated. -/
def HoldsRun (w : World Value Thread Bound) (site : Site Value Thread Bound)
    (p : Nat) : Prop :=
  ∃ addr size, (w.runs site).Allocated addr size ∧ addr + 16 = p

omit fam in
/-- The pointer waits on the remote stack of the state's runner. -/
def Parked (w : World Value Thread Bound) (site : Site Value Thread Bound)
    (p : Nat) : Prop :=
  ∃ parked, IsStack w.mem (w.states site).runs.remoteHead parked ∧ p ∈ parked

omit fam in
/-- The pointer is on a class list of a thread's run cache. -/
def Cached (w : World Value Thread Bound) (value : Value) (thread : Thread)
    (idx p : Nat) : Prop :=
  ∃ entries, IsStack w.mem (w.classes value thread idx).head entries ∧
    p ∈ entries

variable {w}

theorem parked_iff {parked : List Nat}
    (stack : IsStack w.mem (w.states site).runs.remoteHead parked) :
    w.Parked site p ↔ p ∈ parked := by
  constructor
  · rintro ⟨others, again, listed⟩
    rw [stack.unique again]
    exact listed
  · exact fun listed => ⟨parked, stack, listed⟩

end World

namespace WorldOk

variable (ok : WorldOk fam w live ledger)

include ok

theorem holdsNode_of_node (node : p ∈ ledger.nodes site) :
    w.HoldsNode fam site p := by
  obtain ⟨_, _, _, _, pool⟩ := ok.node_pool node
  exact pool.live_node node

theorem holdsNode_territory (holds : w.HoldsNode fam site p) :
    p ∈ w.territory fam (.pool site) := by
  cases created : w.created site with
  | true =>
      obtain ⟨_, _, _, _, pool⟩ := ok.poolOk created
      exact pool.mem_footprint holds
  | false =>
      unfold World.HoldsNode at holds
      rw [(ok.unborn site created).pool.nodes] at holds
      cases holds

theorem runs_view (site : Site Value Thread Bound) : ∃ parked,
    IsStack w.mem (w.states site).runs.remoteHead parked ∧
      (∀ p, w.HoldsRun site p ↔ ledger.HasRun site p ∨ p ∈ parked) ∧
      ∀ p ∈ parked, ¬ ledger.HasRun site p := by
  obtain ⟨runs, parked, runner, held⟩ := ok.runsOk site
  refine ⟨parked, runner.stack, fun p => ?_, ?_⟩
  · obtain ⟨blocks, heap, rfl⟩ := runner.heap
    constructor
    · rintro ⟨addr, size, allocated, rfl⟩
      have member := heap.allocated_iff.mp allocated
      rcases held.accounted _ member with parked | ⟨allocation, listed, same⟩
      · exact Or.inr parked
      · exact Or.inl ⟨allocation, listed, same⟩
    · have marked : ∀ run ∈ Runner.usedRuns blocks, run.addr + 16 = p →
          w.HoldsRun site p := by
        rintro ⟨addr, size, kind⟩ member rfl
        obtain rfl : kind = .used := member.2
        exact ⟨addr, size, heap.allocated_iff.mpr member, rfl⟩
      rintro (⟨allocation, listed, rfl⟩ | parked)
      · obtain ⟨run, member, same, _⟩ := held.covered allocation listed
        exact marked run member same
      · obtain ⟨run, member, same⟩ := runner.parkedRuns p parked
        exact marked run member same
  · rintro p isParked ⟨allocation, listed, rfl⟩
    exact held.unparked allocation listed isParked

theorem holdsRun_iff :
    w.HoldsRun site p ↔ ledger.HasRun site p ∨ w.Parked site p := by
  obtain ⟨parked, stack, runs, _⟩ := ok.runs_view site
  rw [World.parked_iff stack]
  exact runs p

/-- What is parked is out of no user's and no cache's hands. -/
theorem parked_not_run (isParked : w.Parked site p) : ¬ ledger.HasRun site p := by
  obtain ⟨parked, stack, _, apart⟩ := ok.runs_view site
  exact apart p ((World.parked_iff stack).mp isParked)

theorem holdsRun_territory (holds : w.HoldsRun site p) :
    p ∈ w.territory fam (.runs site) := by
  obtain ⟨addr, size, allocated, rfl⟩ := holds
  obtain ⟨runs, parked, runner, _⟩ := ok.runsOk site
  obtain ⟨blocks, heap, rfl⟩ := runner.heap
  have member := heap.allocated_iff.mp allocated
  have large := (heap.layout.sizes _ member.1 (by rw [member.2]; decide)).1
  apply heap.inChunks_of_holds member.1
  refine ⟨Nat.le_add_right _ _, ?_⟩
  unfold Block.stop
  dsimp only at large ⊢
  omega

theorem holdsRun_unique (holds : w.HoldsRun site p) (again : w.HoldsRun other p) :
    site = other := by
  cases ok.tenant_unique (ok.holdsRun_territory holds)
    (ok.holdsRun_territory again)
  rfl

theorem holdsNode_unique (holds : w.HoldsNode fam site p)
    (again : w.HoldsNode fam other p) : site = other := by
  cases ok.tenant_unique (ok.holdsNode_territory holds)
    (ok.holdsNode_territory again)
  rfl

theorem holdsNode_not_run (holds : w.HoldsNode fam site p) :
    ¬ w.HoldsRun other p := by
  intro again
  cases ok.tenant_unique (ok.holdsNode_territory holds)
    (ok.holdsRun_territory again)

theorem cached_iff : w.Cached value thread idx p ↔
    ledger.place p = some (.cached value thread idx) := by
  obtain ⟨entries, cls⟩ := ok.classes value thread idx
  rw [← cls.place p]
  constructor
  · rintro ⟨others, again, listed⟩
    rw [cls.chain.unique again]
    exact listed
  · exact fun listed => ⟨entries, cls.chain, listed⟩

theorem payload_covers {allocation : Runner.Allocation} {bytes : Nat}
    (member : allocation ∈ ledger.runs site) (enough : bytes ≤ room allocation) :
    bytes ≤ w.payloadBytes allocation.payload :=
  enough.trans (ok.payload_large member).2

/-- An allocation is either a node of one pool or a run of one runner. -/
theorem item_kind {item : Item fam} (member : item ∈ live) :
    (item.IsNode ∧ ∃ site, item.ptr ∈ ledger.nodes site ∧
        item.handle.DrawsFrom site ∧ ∀ other, w.HoldsNode fam other item.ptr ↔
          other = site) ∨
      (¬ item.IsNode ∧ ∃ site, ledger.HasRun site item.ptr ∧
        item.handle.DrawsFrom site ∧ ∀ other, w.HoldsRun other item.ptr ↔
          other = site) := by
  have fits := ok.items item member
  by_cases single : item.IsNode
  · obtain ⟨site, node, draws⟩ := fits.node single
    have holds := ok.holdsNode_of_node node
    refine Or.inl ⟨single, site, node, draws, fun other => ⟨fun again =>
      ok.holdsNode_unique again holds, ?_⟩⟩
    rintro rfl
    exact holds
  · obtain ⟨site, allocation, listed, payload, _, draws⟩ := fits.run single
    have run : ledger.HasRun site item.ptr := ⟨allocation, listed, payload⟩
    have holds := ok.holdsRun_iff.mpr (Or.inl run)
    refine Or.inr ⟨single, site, run, draws, fun other => ⟨fun again =>
      ok.holdsRun_unique again holds, ?_⟩⟩
    rintro rfl
    exact holds

variable [DecidableEq Value] [DecidableEq Thread] [DecidableEq Bound]

/-- What `allocate` returns is a node of the pool, or a run of the runner, that
the allocator resolves to on the calling thread. -/
theorem allocate_source {a : Handle fam value} {env : Environment} {n : Nat}
    {w' : World Value Thread Bound} (usable : a.Usable w)
    (avoids : env.Avoids (w.inUse fam)) (some : n ≠ 0)
    (result : w.allocate fam a thread env n = (w', .ok p)) :
    (n = 1 ∧ a.mode ≠ .runsOverride ∧ w'.HoldsNode fam (a.siteOn thread) p) ∨
      ((n = 1 → a.mode = .runsOverride) ∧ w'.HoldsRun (a.siteOn thread) p ∧
        n * fam.sizeOf value ≤ w'.payloadBytes p) := by
  have outcome : AllocateOutcome fam live ledger a thread n
      (n ≤ fam.maxSize value ∧ w.LosesRun fam a thread env n)
      (w.allocate fam a thread env n) := ok.allocate usable avoids
  rw [result] at outcome
  cases outcome with
  | null none => exact absurd none some
  | node one _ pooled _ after _ node =>
      exact Or.inl ⟨one, pooled, after.holdsNode_of_node node⟩
  | run _ _ routed _ after _ run =>
      obtain ⟨allocation, member, rfl, enough⟩ := run
      exact Or.inr ⟨routed,
        after.holdsRun_iff.mpr (Or.inl ⟨allocation, member, rfl⟩),
        after.payload_covers member enough⟩

end WorldOk

end Suballocated

end Allocazam
