import Allocazam.RunnerGrowth
import Allocazam.SuballocatedSafety

/-!
# The runners of the threads

What every call of a runner keeps holds of the runner of each thread state
throughout.  All members of the allocator are gone through, down to the calls of
the runners.
-/

namespace Allocazam

namespace Suballocated

variable {Value Thread Bound : Type} {fam : Family Value Thread Bound}
  {w w' : World Value Thread Bound} {value : Value} {thread : Thread}
  {site : Site Value Thread Bound} {idx : Nat} {permits : Runner.Os → Prop}
  {keeps : Runner.Config → Runner.Allocator → Prop}

def World.Throughout (fam : Family Value Thread Bound)
    (keeps : Runner.Config → Runner.Allocator → Prop)
    (w : World Value Thread Bound) : Prop :=
  ∀ value thread, w.created (.thread value thread) = true →
    keeps (fam.runsConfig (.thread value thread))
      (w.states (.thread value thread)).runs

/-- A kind of runner that depends on the chunks and on the sizes of the next ones
only, is kept by allocations under the permitted systems, and is that of a lazily
constructed runner. -/
structure RunnerRule (fam : Family Value Thread Bound)
    (permits : Runner.Os → Prop)
    (keeps : Runner.Config → Runner.Allocator → Prop) : Prop where
  quiet : ∀ {cfg : Runner.Config} {s t : Runner.State}, t.chunks = s.chunks →
    t.sizing = s.sizing → keeps cfg s.toAllocator → keeps cfg t.toAllocator
  allocates : ∀ {cfg : Runner.Config} {s : Runner.State} {os : Runner.Os}
    (bytes alignment : Nat), permits os → keeps cfg s.toAllocator →
      keeps cfg (s.allocateBytes cfg os bytes alignment).1.toAllocator
  lazy : ∀ (value : Value) (thread : Thread) (mem : Nat → Nat),
    fam.stateless = true → keeps (fam.runsConfig (.thread value thread))
      (fam.lazyState mem (.thread value thread)).runs

def Operation.Permitted (permits : Runner.Os → Prop) : Operation fam → Prop
  | .allocate _ _ env _ => ∀ i, permits (env.os i)
  | .allocateAtLeast _ _ env _ => ∀ i, permits (env.os i)
  | _ => True

namespace World.Throughout

theorem of_states (holds : w.Throughout fam keeps) (states : w'.states = w.states)
    (created : w'.created = w.created) : w'.Throughout fam keeps := by
  intro value thread made
  rw [created] at made
  rw [states]
  exact holds value thread made

variable [DecidableEq Value] [DecidableEq Thread] [DecidableEq Bound]

theorem setPool (holds : w.Throughout fam keeps) (s : Pool.State) :
    (w.setPool site s).Throughout fam keeps := by
  intro value thread made
  rw [setPool_runs]
  exact holds value thread made

/-- A call of a runner that keeps its kind. -/
theorem setRuns (holds : w.Throughout fam keeps) {s : Runner.State}
    (called : keeps (fam.runsConfig site) (w.runs site).toAllocator →
      keeps (fam.runsConfig site) s.toAllocator) :
    (w.setRuns site s).Throughout fam keeps := by
  intro value thread made
  have before := holds value thread made
  by_cases own : Site.thread value thread = site
  · subst own
    rw [setRuns_runs_self]
    exact called before
  · rw [setRuns_runs_of_ne _ own]
    exact before

/-- The constructors of bound states build no thread state. -/
theorem construct (holds : w.Throughout fam keeps) (state : Bound) (heap : Pool.Heap)
    (os : Runner.Os) (arguments : Arguments) :
    (w.construct fam (.bound state) heap os arguments).1.Throughout fam keeps := by
  have elsewhere : ∀ (mem : Nat → Nat) (built : StdState),
      World.Throughout fam keeps
      { w with
        mem := mem
        states := Function.update w.states (.bound state) built
        created := Function.update w.created (.bound state) true } := by
    intro mem built value thread made
    dsimp only at made ⊢
    rw [Function.update_of_ne (by simp)] at made ⊢
    exact holds value thread made
  cases arguments with
  | sized poolSize runnerBytes =>
      unfold World.construct World.constructSized
      dsimp only
      generalize Pool.State.construct (fam.poolConfig (.bound state)) heap w.mem
        poolSize = pool
      cases pool with
      | error exn => exact holds
      | ok pool =>
          dsimp only
          generalize Runner.State.construct (fam.runsConfig (.bound state)) os
            pool.mem _ = runs
          cases runs with
          | error exn => exact holds
          | ok runs => exact elsewhere _ _
  | deferred => exact elsewhere _ _
  | backed nodeData nodeSize runData runSize =>
      unfold World.construct World.constructBacked
      dsimp only
      generalize Pool.State.constructExternal (fam.poolConfig (.bound state))
        w.mem nodeData nodeSize = pool
      cases pool with
      | error exn => exact holds
      | ok pool =>
          dsimp only
          generalize Runner.State.constructExternal pool.mem runData runSize =
            runs
          cases runs with
          | error exn => exact holds
          | ok runs => exact elsewhere _ _
omit [DecidableEq Bound] in
theorem tlsPopWalk (holds : w.Throughout fam keeps) (owner fuel prev node : Nat) :
    (w.tlsPopWalk value thread idx owner fuel prev node).1.Throughout fam keeps := by
  induction fuel generalizing prev node with
  | zero => exact holds
  | succ fuel ih =>
      unfold World.tlsPopWalk
      split
      · exact holds
      split
      · exact ih node (w.mem node)
      · dsimp only
        split <;> exact holds.of_states rfl rfl

theorem freeNodeRouted {a : Handle fam value} (holds : w.Throughout fam keeps)
    (p : Nat) :
    (w.freeNodeRouted fam a thread p).Throughout fam keeps := by
  unfold World.freeNodeRouted
  cases a with
  | defaultState stateless =>
      dsimp only
      split <;> exact holds.setPool _
  | explicitState state typed => exact holds.setPool _
  | runsOverride runs => exact holds

end World.Throughout

namespace RunnerRule

variable [DecidableEq Value] [DecidableEq Thread] [DecidableEq Bound]
  (rule : RunnerRule fam permits keeps)

include rule

theorem deallocateBytes (holds : w.Throughout fam keeps) (p : Nat) :
    (w.deallocateBytes fam site p).Throughout fam keeps :=
  holds.setRuns fun before =>
    have same := Runner.deallocateBytes_outer p
    rule.quiet (Runner.State.chunks_of_outer same)
      (Runner.State.sizing_of_outer same) before

theorem remotePush (holds : w.Throughout fam keeps) (p : Nat) :
    (w.remotePush site p).Throughout fam keeps :=
  holds.setRuns fun before =>
    rule.quiet (s := w.runs site) (t := (w.runs site).remotePush p) rfl rfl before

theorem returnRun (holds : w.Throughout fam keeps) (p owner : Nat) :
    (w.returnRun fam value thread p owner).Throughout fam keeps := by
  unfold World.returnRun
  split
  · exact rule.deallocateBytes holds p
  · exact rule.remotePush holds p

theorem tlsDrainWalk (holds : w.Throughout fam keeps) (keepCount fuel : Nat) :
    (World.tlsDrainWalk fam value thread idx keepCount fuel w).Throughout fam
      keeps := by
  induction fuel generalizing w with
  | zero => exact holds
  | succ fuel ih =>
      unfold World.tlsDrainWalk World.tlsPopAny
      split
      · dsimp only
        split
        · exact holds
        · apply ih
          apply rule.returnRun
          exact holds.of_states rfl rfl
      · exact holds

theorem tlsDrainAll (holds : w.Throughout fam keeps) :
    (w.tlsDrainAll fam value thread).Throughout fam keeps := by
  unfold World.tlsDrainAll
  induction List.range tlsRunClassCount generalizing w with
  | nil => exact holds
  | cons idx indices ih => exact ih (rule.tlsDrainWalk holds 0 _)

theorem destroyWalk (holds : w.Throughout fam keeps) (fuel node : Nat) :
    (World.destroyWalk fam value thread fuel node w).Throughout fam keeps := by
  induction fuel generalizing node w with
  | zero => exact holds
  | succ fuel ih =>
      unfold World.destroyWalk
      split
      · exact holds
      · dsimp only
        apply ih
        split
        · exact rule.returnRun holds node _
        · exact holds

theorem destroyCache (holds : w.Throughout fam keeps) :
    (w.destroyCache fam value thread).Throughout fam keeps := by
  unfold World.destroyCache
  induction List.range tlsRunClassCount generalizing w with
  | nil => exact holds
  | cons idx indices ih =>
      apply ih
      exact (rule.destroyWalk holds _ _).of_states rfl rfl

theorem deallocateToTlsRunCache (holds : w.Throughout fam keeps) (p bytes : Nat) :
    (w.deallocateToTlsRunCache fam value thread p bytes).Throughout fam keeps := by
  unfold World.deallocateToTlsRunCache
  have drained : (w.drainedForPush fam value thread
      (tlsClassIndexFor bytes)).Throughout fam keeps := by
    unfold World.drainedForPush
    split
    · exact rule.tlsDrainWalk holds _ _
    · exact holds
  exact drained.of_states rfl rfl

variable {a : Handle fam value}

theorem freeRunRouted (holds : w.Throughout fam keeps) (p : Nat) :
    (w.freeRunRouted fam a thread p).Throughout fam keeps := by
  unfold World.freeRunRouted
  cases a with
  | defaultState stateless => exact rule.returnRun holds p _
  | explicitState state typed => exact rule.deallocateBytes holds p
  | runsOverride runs => exact rule.deallocateBytes holds p

theorem deallocate (holds : w.Throughout fam keeps) (p n : Nat) :
    (w.deallocate fam a thread p n).Throughout fam keeps := by
  unfold World.deallocate
  split
  · exact holds
  split
  · split
    · exact holds.freeNodeRouted p
    · exact rule.freeRunRouted holds p
  cases checkedMul n (fam.sizeOf value) with
  | none => exact rule.freeRunRouted holds p
  | some bytes =>
      dsimp only
      split
      · exact rule.deallocateToTlsRunCache holds p bytes
      · exact rule.freeRunRouted holds p

theorem expandRun (holds : w.Throughout fam keeps) (p minNewBytes : Nat) :
    (w.expandRun fam site p minNewBytes).1.Throughout fam keeps :=
  holds.setRuns fun before =>
    rule.quiet (Runner.expand_chunks p minNewBytes)
      (Runner.expand_sizing p minNewBytes) before

theorem expand (holds : w.Throughout fam keeps) (p minNewBytes : Nat) :
    (w.expand fam a thread p minNewBytes).1.Throughout fam keeps := by
  unfold World.expand
  split
  · exact holds
  cases a with
  | defaultState stateless =>
      dsimp only
      split
      · split
        · exact holds
        split
        · exact rule.expandRun holds p minNewBytes
        · exact holds
      · exact holds
  | explicitState state typed =>
      dsimp only
      split
      · exact holds
      · exact rule.expandRun holds p minNewBytes
  | runsOverride runs => exact rule.expandRun holds p minNewBytes

theorem allocateBytes (holds : w.Throughout fam keeps) {os : Runner.Os}
    (permitted : permits os) (bytes alignment : Nat) :
    (w.allocateBytes fam site os bytes alignment).1.Throughout fam keeps :=
  holds.setRuns fun before => rule.allocates bytes alignment permitted before

variable {os : Nat → Runner.Os}

theorem refill (holds : w.Throughout fam keeps) (permitted : ∀ i, permits (os i))
    (rounds : Nat) :
    (World.refill fam value thread site os idx rounds w).1.Throughout fam keeps := by
  induction rounds generalizing w with
  | zero => exact holds
  | succ rounds ih =>
      have after : (w.allocateBytes fam site (os (rounds + 2)) (tlsClassBytes idx)
          (fam.alignOf value)).1.Throughout fam keeps :=
        rule.allocateBytes holds (permitted (rounds + 2)) _ _
      unfold World.refill
      generalize w.allocateBytes fam site (os (rounds + 2)) (tlsClassBytes idx)
        (fam.alignOf value) = outcome at after ⊢
      obtain ⟨w', exn | extra⟩ := outcome
      · exact after
      · dsimp only at after ⊢
        split
        · exact after
        · apply ih
          exact after.of_states rfl rfl

theorem obtain (holds : w.Throughout fam keeps) (permitted : ∀ i, permits (os i)) :
    (w.obtain fam value thread site os idx).1.Throughout fam keeps := by
  have first : (w.allocateBytes fam site (os 0) (tlsClassBytes idx)
      (fam.alignOf value)).1.Throughout fam keeps :=
    rule.allocateBytes holds (permitted 0) _ _
  unfold World.obtain
  generalize w.allocateBytes fam site (os 0) (tlsClassBytes idx)
    (fam.alignOf value) = outcome at first ⊢
  obtain ⟨w₁, exn | raw⟩ := outcome
  · exact first
  · dsimp only at first ⊢
    split
    · exact rule.allocateBytes (rule.tlsDrainAll first) (permitted 1) _ _
    · exact first

theorem allocateForCache (holds : w.Throughout fam keeps)
    (permitted : ∀ i, permits (os i)) :
    (w.allocateForCache fam value thread site os idx).1.Throughout fam keeps := by
  have first : (w.obtain fam value thread site os idx).1.Throughout fam keeps :=
    rule.obtain holds permitted
  rw [World.allocateForCache_eq]
  generalize w.obtain fam value thread site os idx = outcome at first ⊢
  obtain ⟨w₁, exn | raw⟩ := outcome
  · exact first
  · dsimp only at first ⊢
    split
    · exact first
    unfold World.refillAndHandOut
    split
    · have after : (World.refill fam value thread site os idx
          (tlsRefillBatch - 1) w₁).1.Throughout fam keeps :=
        rule.refill first permitted _
      generalize World.refill fam value thread site os idx (tlsRefillBatch - 1)
        w₁ = result at after ⊢
      obtain ⟨w₂, exn | done⟩ := result <;> exact after
    · exact first

theorem threadState (holds : w.Throughout fam keeps)
    (stateless : fam.stateless = true)
    (room : Bool) :
    (w.threadState fam value thread room).1.Throughout fam keeps := by
  unfold World.threadState
  dsimp only
  split
  · exact holds
  split
  · intro value' thread' made
    dsimp only at made ⊢
    by_cases own : Site.thread value' thread' =
        (Site.thread value thread : Site Value Thread Bound)
    · rw [own, Function.update_self]
      exact rule.lazy value thread w.mem stateless
    · rw [Function.update_of_ne own] at made ⊢
      exact holds value' thread' made
  · exact holds

variable {room : Bool}

theorem runsPtr (holds : w.Throughout fam keeps) :
    (w.runsPtr fam a thread room).1.Throughout fam keeps := by
  cases a with
  | defaultState stateless => exact rule.threadState holds stateless room
  | explicitState state typed => exact holds
  | runsOverride runs => exact holds

theorem allocState (holds : w.Throughout fam keeps) :
    (w.allocState fam a thread room).1.Throughout fam keeps := by
  unfold World.allocState
  cases a with
  | defaultState stateless =>
      dsimp only
      have resolved : (w.threadState fam value thread room).1.Throughout fam keeps :=
        rule.threadState holds stateless room
      generalize w.threadState fam value thread room = outcome at resolved ⊢
      obtain ⟨w₁, exn | target⟩ := outcome <;> exact resolved
  | explicitState state typed => exact holds
  | runsOverride runs => exact holds

variable {env : Environment}

theorem allocateRun (holds : w.Throughout fam keeps) {os : Runner.Os}
    (permitted : permits os) (bytes : Nat) :
    (w.allocateRun fam a thread room os bytes).1.Throughout fam keeps := by
  have resolved : (w.runsPtr fam a thread room).1.Throughout fam keeps :=
    rule.runsPtr holds
  unfold World.allocateRun
  generalize w.runsPtr fam a thread room = outcome at resolved ⊢
  obtain ⟨w₁, exn | target⟩ := outcome
  · exact resolved
  · dsimp only at resolved ⊢
    have after : (w₁.allocateBytes fam target os bytes
        (fam.alignOf value)).1.Throughout fam keeps :=
      rule.allocateBytes resolved permitted _ _
    generalize w₁.allocateBytes fam target os bytes (fam.alignOf value) = result
      at after ⊢
    obtain ⟨w₂, exn | raw⟩ := result
    · exact after
    · dsimp only at after ⊢
      split <;> exact after

theorem allocateNode (holds : w.Throughout fam keeps)
    (permitted : ∀ i, permits (env.os i)) :
    (w.allocateNode fam a thread env).1.Throughout fam keeps := by
  have resolved : (w.allocState fam a thread env.room).1.Throughout fam keeps :=
    rule.allocState holds
  unfold World.allocateNode
  generalize w.allocState fam a thread env.room = outcome at resolved ⊢
  obtain ⟨w₁, exn | none | target⟩ := outcome
  · exact resolved
  · exact rule.allocateRun resolved (permitted 0) _
  · dsimp only at resolved ⊢
    generalize (w₁.pool target).allocate (fam.poolConfig target) env.heap = result
    obtain ⟨s, exn | p⟩ := result
    · exact resolved.setPool s
    · dsimp only
      split <;> exact resolved.setPool s

theorem allocateRest (holds : w.Throughout fam keeps)
    (permitted : ∀ i, permits (env.os i))
    (bytes p : Nat) :
    (w.allocateRest fam a thread env bytes p).1.Throughout fam keeps := by
  unfold World.allocateRest
  split
  · exact holds
  · exact rule.allocateRun holds (permitted 5) bytes

theorem allocateFromTlsRunCache (holds : w.Throughout fam keeps)
    (permitted : ∀ i, permits (env.os i))
    (bytes : Nat) :
    (w.allocateFromTlsRunCache fam a thread env bytes).1.Throughout fam keeps := by
  have resolved : (w.runsPtr fam a thread env.room).1.Throughout fam keeps :=
    rule.runsPtr holds
  unfold World.allocateFromTlsRunCache
  generalize w.runsPtr fam a thread env.room = outcome at resolved ⊢
  obtain ⟨w₁, exn | target⟩ := outcome
  · exact resolved
  · dsimp only at resolved ⊢
    have popped : (w₁.tlsPopForOwner value thread (tlsClassIndexFor bytes)
        (fam.runsAt target)).1.Throughout fam keeps := resolved.tlsPopWalk _ _ _ _
    generalize w₁.tlsPopForOwner value thread (tlsClassIndexFor bytes)
      (fam.runsAt target) = result at popped ⊢
    obtain ⟨w₂, node⟩ := result
    dsimp only at popped ⊢
    split
    · exact popped
    · exact rule.allocateForCache popped permitted

theorem allocate (holds : w.Throughout fam keeps)
    (permitted : ∀ i, permits (env.os i))
    (n : Nat) : (w.allocate fam a thread env n).1.Throughout fam keeps := by
  unfold World.allocate
  split
  · exact holds
  split
  · exact holds
  split
  · exact rule.allocateNode holds permitted
  cases checkedMul n (fam.sizeOf value) with
  | none => exact holds
  | some bytes =>
      dsimp only
      split
      · have cached : (w.allocateFromTlsRunCache fam a thread env
            bytes).1.Throughout fam keeps :=
          rule.allocateFromTlsRunCache holds permitted bytes
        generalize w.allocateFromTlsRunCache fam a thread env bytes = outcome
          at cached ⊢
        obtain ⟨w₁, exn | p⟩ := outcome
        · exact cached
        · exact rule.allocateRest cached permitted bytes p
      · exact rule.allocateRest holds permitted bytes 0

variable {session : Session fam}

/-- Every call keeps the kind of the runners of the threads. -/
theorem perform {operation : Operation fam}
    (holds : session.world.Throughout fam keeps)
    (permitted : operation.Permitted permits) :
    (session.perform operation).world.Throughout fam keeps := by
  cases operation with
  | construct state heap os arguments =>
      exact World.Throughout.construct holds state heap os arguments
  | allocate a thread env n =>
      have after : (session.world.allocate fam a thread env n).1.Throughout fam
          keeps := rule.allocate holds permitted n
      rw [Session.perform_allocate]
      generalize session.world.allocate fam a thread env n = outcome at after ⊢
      obtain ⟨w, exn | p⟩ := outcome <;> exact after
  | @allocateAtLeast value a thread env n =>
      by_cases none : n = 0
      · subst none
        exact holds
      · have after : (session.world.allocate fam a thread env
            (World.growthCount fam value n)).1.Throughout fam keeps :=
          rule.allocate holds permitted _
        rw [Session.perform_allocateAtLeast none]
        generalize session.world.allocate fam a thread env
          (World.growthCount fam value n) = outcome at after ⊢
        obtain ⟨w, exn | p⟩ := outcome <;> exact after
  | deallocate item b thread m => exact rule.deallocate holds item.ptr m
  | expand item b thread minNewBytes =>
      exact rule.expand holds item.ptr minNewBytes
  | exit value thread =>
      have after : (session.world.destroyCache fam value thread).Throughout fam
          keeps := rule.destroyCache holds
      rw [Session.perform_exit]
      generalize session.world.destroyCache fam value thread = w at after ⊢
      exact after

end RunnerRule

end Suballocated

end Allocazam
