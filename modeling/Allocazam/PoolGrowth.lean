import Allocazam.PoolSafety

/-!
# Allocations that throw

`_grow` doubles the growth step before it adds the chunk.  An allocation that
throws leaves everything else as it was, and the growth step too if the chunk
would have been the first one or the doubled step is no word.
-/

namespace Allocazam

namespace Pool

variable {cfg : Config} {slots : Nat} {deferred : Bool} {session : Session}
  {free parked : List Nat}

/-- `t` has the chunks, counters and live nodes of `s`.  Parked nodes may have
moved to the free list. -/
structure Unchanged (s t : State) : Prop where
  chunks : t.chunks = s.chunks
  capacity : t.capacity = s.capacity
  nextGrowth : t.nextGrowth = s.nextGrowth
  lists : ∀ free parked, IsStack s.mem s.freeHead free →
    IsStack s.mem s.remoteHead parked → ∃ free' parked',
      IsStack t.mem t.freeHead free' ∧ IsStack t.mem t.remoteHead parked' ∧
        (free' ++ parked').Perm (free ++ parked)

namespace Unchanged

variable {s t u : State}

theorem refl (s : State) : Unchanged s s where
  chunks := rfl
  capacity := rfl
  nextGrowth := rfl
  lists free parked stack remote :=
    ⟨free, parked, stack, remote, List.Perm.refl _⟩

theorem trans (first : Unchanged s t) (second : Unchanged t u) :
    Unchanged s u where
  chunks := second.chunks.trans first.chunks
  capacity := second.capacity.trans first.capacity
  nextGrowth := second.nextGrowth.trans first.nextGrowth
  lists free parked stack remote := by
    obtain ⟨free', parked', stack', remote', moved⟩ :=
      first.lists free parked stack remote
    obtain ⟨free'', parked'', stack'', remote'', moved'⟩ :=
      second.lists free' parked' stack' remote'
    exact ⟨free'', parked'', stack'', remote'', moved'.trans moved⟩

end Unchanged

/-- Allocations one after the other that all throw. -/
inductive AllThrow (cfg : Config) : Session → List Heap → Session → Prop
  | none {session : Session} : AllThrow cfg session [] session
  | more {session last : Session} {heap : Heap} {heaps : List Heap} {exn : Exn}
      (allowed : session.Allows cfg (.allocate heap))
      (throws : (session.state.allocate cfg heap).2 = .error exn)
      (rest : AllThrow cfg (session.perform cfg (.allocate heap)) heaps last) :
      AllThrow cfg session (heap :: heaps) last

namespace SessionOk

variable (inv : SessionOk cfg slots deferred session free parked)

include inv

theorem throws {heap : Heap} {exn : Exn}
    (allowed : session.Allows cfg (.allocate heap))
    (error : (session.state.allocate cfg heap).2 = .error exn) :
    ∃ t, session.perform cfg (.allocate heap) = ⟨t, session.live⟩ ∧
      (session.state.allocate cfg heap).1 = t ∧
      t.capacity = session.state.capacity ∧
      (t.nextGrowth = session.state.nextGrowth →
        Unchanged session.state t) ∧
      (t.nextGrowth = session.state.nextGrowth ∧
          (session.state.capacity = 0 ∧
              heap.Refuses cfg session.state.nextGrowth ∨
            2 ^ 64 ≤ 2 * session.state.nextGrowth) ∨
        t.nextGrowth = 2 * session.state.nextGrowth ∧
          session.state.capacity ≠ 0 ∧
          2 * session.state.nextGrowth < 2 ^ 64) := by
  obtain ⟨u, free', parked', balanced, provides, _, chunks, growth, capacity, _,
    _, _⟩ := inv.allocates allowed
  unfold Session.perform
  dsimp only
  generalize session.state.allocate cfg heap = outcome at provides error
  cases provides with
  | taken => simp at error
  | exhausted => simp at error
  | grown => simp at error
  | @failed nextGrowth exn changed =>
      refine ⟨_, rfl, rfl, capacity, fun same => ?_, ?_⟩
      · refine
          { chunks := chunks
            capacity := capacity
            nextGrowth := same
            lists := fun free₀ parked₀ stack remote => ?_ }
        obtain rfl := inv.balanced.stack.unique stack
        obtain rfl := inv.balanced.remote.unique remote
        refine ⟨[], parked', balanced.stack, balanced.remote, ?_⟩
        have nodes := inv.balanced.perm
        have nodesEq : u.nodes cfg = session.state.nodes cfg := by
          unfold Members.nodes
          rw [chunks]
        rw [← nodesEq] at nodes
        have split := balanced.perm.trans nodes.symm
        simp only [List.append_nil] at split
        exact (List.perm_append_right_iff _).mp split
      · rw [← growth, ← capacity]
        show nextGrowth = _ ∧ _ ∨ nextGrowth = _ ∧ _
        rcases changed with ⟨same, ⟨_, none, refused⟩ | ⟨_, _, large⟩⟩ |
          ⟨doubled, some, _, small, _⟩
        · rw [same] at refused
          exact Or.inl ⟨same, Or.inl ⟨none, refused⟩⟩
        · exact Or.inl ⟨same, Or.inr large⟩
        · exact Or.inr ⟨doubled, some, small⟩

/-- An array for the first chunk is enough for a growing pool. -/
theorem succeeds {heap : Heap} (growing : cfg.mode = .dynamic)
    (allowed : session.Allows cfg (.allocate heap))
    (first : session.state.capacity = 0)
    (available : ¬ heap.Refuses cfg session.state.nextGrowth) :
    ∃ n, n ≠ 0 ∧ (session.state.allocate cfg heap).2 = .ok n := by
  obtain ⟨u, free', parked', balanced, provides, _, _, growth, capacity, _, _,
    _⟩ := inv.allocates allowed
  generalize session.state.allocate cfg heap = outcome at provides
  cases provides with
  | @taken n => exact ⟨n, balanced.stack.2.1, rfl⟩
  | exhausted fixedLike => simp [Config.fixedLike, growing] at fixedLike
  | failed changed =>
      rcases changed with ⟨same, ⟨_, _, refused⟩ | ⟨some, _⟩⟩ | ⟨_, some, _⟩
      · rw [same, growth] at refused
        exact absurd refused available
      · exact absurd (capacity.trans first) some
      · exact absurd (capacity.trans first) some
  | @grown _ _ _ n _ _ grows nodes =>
      exact ⟨n, grows.ok.nonnull (grows.ok.listed n (by rw [nodes]; simp)), rfl⟩

end SessionOk

theorem AllThrow.unchanged {heaps : List Heap} {last : Session}
    (run : AllThrow cfg session heaps last)
    (inv : SessionOk cfg slots deferred session free parked)
    (condition : session.state.capacity = 0 ∨
      2 ^ 64 ≤ 2 * session.state.nextGrowth) :
    (∃ free parked, SessionOk cfg slots deferred last free parked) ∧
      Unchanged session.state last.state ∧ last.live = session.live := by
  induction run generalizing free parked with
  | none => exact ⟨⟨free, parked, inv⟩, .refl _, rfl⟩
  | @more session last heap heaps exn allowed throws rest ih =>
      obtain ⟨t, performed, _, capacity, unchanged, outcome⟩ :=
        inv.throws allowed throws
      obtain ⟨free', parked', inv'⟩ := inv.allocate allowed
      have same : t.nextGrowth = session.state.nextGrowth := by omega
      rw [performed] at ih inv'
      obtain ⟨ok, later, live⟩ :=
        ih inv' (by simp only; rw [capacity, same]; exact condition)
      exact ⟨ok, (unchanged same).trans later, live⟩

/-- An allocation of a growing pool that throws leaves the pool unchanged when
its first chunk is still to come or its doubled growth step is no word, and
otherwise with a doubled growth step.  In the first case any number of such
allocations leaves it unchanged, and one succeeds as soon as the heap has the
array. -/
theorem throw_unchanged_iff (growing : cfg.mode = .dynamic)
    (reachable : (sessions cfg slots deferred).Reachable session) :
    (∀ heap exn, session.Allows cfg (.allocate heap) →
      (session.state.allocate cfg heap).2 = .error exn →
        (Unchanged session.state (session.state.allocate cfg heap).1 ↔
          session.state.capacity = 0 ∨
            2 ^ 64 ≤ 2 * session.state.nextGrowth)) ∧
    (session.state.capacity = 0 ∨ 2 ^ 64 ≤ 2 * session.state.nextGrowth →
      ∀ heaps last, AllThrow cfg session heaps last →
        Unchanged session.state last.state ∧ last.live = session.live ∧
        (session.state.capacity = 0 → ∀ heap, last.Allows cfg (.allocate heap) →
          ¬ heap.Refuses cfg session.state.nextGrowth →
            ∃ n, n ≠ 0 ∧ (last.state.allocate cfg heap).2 = .ok n)) := by
  obtain ⟨free, parked, inv⟩ := sessions_inductive.reachable reachable
  constructor
  · intro heap exn allowed error
    obtain ⟨t, _, result, capacity, unchanged, outcome⟩ :=
      inv.throws allowed error
    rw [result]
    constructor
    · intro same
      have kept := same.nextGrowth
      have positive := inv.balanced.growing (by
        simp [Config.heapBacked, growing])
      rcases outcome with ⟨_, ⟨first, _⟩ | large⟩ | ⟨doubled, _⟩
      · exact Or.inl first
      · exact Or.inr large
      · omega
    · intro condition
      apply unchanged
      omega
  · intro condition heaps last run
    obtain ⟨⟨free', parked', inv'⟩, unchanged, live⟩ :=
      run.unchanged inv condition
    refine ⟨unchanged, live, fun first heap allowed available => ?_⟩
    apply inv'.succeeds growing allowed
    · rw [unchanged.capacity, first]
    · rw [unchanged.nextGrowth]
      exact available

/-- With its only node in use and no memory left, the next chunk grows by each
attempt. -/
theorem samplePool_growth_lost :
    (sessions (samplePool .dynamic) 1 false).Reachable
      (sampleSession .dynamic) ∧
    (sampleSession .dynamic).Allows (samplePool .dynamic)
      (.allocate exhausted) ∧
    ((sampleSession .dynamic).state.allocate (samplePool .dynamic)
      exhausted).2 = .error .refused ∧
    (sampleSession .dynamic).state.nextGrowth = 1 ∧
    ((sampleSession .dynamic).state.allocate (samplePool .dynamic)
      exhausted).1.nextGrowth = 2 :=
  ⟨samplePool_reachable (by decide), fun _ _ => trivial, rfl, rfl, rfl⟩

theorem samplePool_throw_unchanged :
    ¬ Unchanged (sampleSession .dynamic).state
      ((sampleSession .dynamic).state.allocate (samplePool .dynamic)
        exhausted).1 := by
  intro same
  have growing : (samplePool .dynamic).mode = .dynamic := rfl
  have condition := ((throw_unchanged_iff growing
    (samplePool_reachable (by decide))).1 exhausted .refused
      (fun _ _ => trivial) rfl).mp same
  exact absurd condition (by decide +kernel)

end Pool

end Allocazam
