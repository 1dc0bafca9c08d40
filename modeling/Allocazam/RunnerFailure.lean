import Allocazam.RunnerAllocationSafety
import Allocazam.RunnerExhaustion

/-!
# Failed allocations

A call of `allocate_bytes` that ends with null or an exception has drained the
remote stack and added the deferred first chunk at most, and no holder notices.
-/

namespace Allocazam

namespace Runner

variable {cfg : Config} {s t : State} {os : Os} {session : Session}
  {runs : Set Block} {parked : List Nat} {needed bytes alignment : Nat}

/-- The request as `allocate_bytes` normalises it. -/
def requestOf (bytes : Nat) : Nat :=
  if bytes = 0 then 1 else bytes

/-- The OS has the memory the request needs: no chunk fails, and a runner that does
not grow has room once its first chunk is there. -/
def Supplies (cfg : Config) (os : Os) (s : State) (needed : Nat) : Prop :=
  (∀ exn, ¬ AllocationFails cfg os s needed exn) ∧
    (cfg.canGrow = true ∨
      ∃ t, s.reclaim cfg os = (t, .ok ()) ∧ ¬ t.NoFit needed)

/-- The sizes and the chunks are as before, or the deferred chunk was granted. -/
def SizesKept (os : Os) (s t : State) : Prop :=
  t.chunks = s.chunks ∧ t.deferredBytes = s.deferredBytes ∧
      t.nextGrowth = s.nextGrowth ∨
    s.deferredBytes ≠ 0 ∧ ∃ base length, os.grant s.chunks length = some base ∧
      t.chunks = ownedChunk base length :: s.chunks ∧ t.deferredBytes = 0 ∧
      t.nextGrowth = length

theorem SizesKept.congr {u : State} (kept : SizesKept os s t)
    (same : u.unmeasured = t.unmeasured) : SizesKept os s u := by
  have chunks : u.chunks = t.chunks := congrArg (fun v => v.chunks) same
  have deferred : u.deferredBytes = t.deferredBytes :=
    congrArg (fun v => v.deferredBytes) same
  have next : u.nextGrowth = t.nextGrowth := congrArg (fun v => v.nextGrowth) same
  unfold SizesKept at kept ⊢
  rw [chunks, deferred, next]
  exact kept

theorem reclaim_sizes : SizesKept os s (s.reclaim cfg os).1 := by
  have chunks : (s.drainRemote cfg).1.chunks = s.chunks := drainRemote_chunks
  have sizing : (s.drainRemote cfg).1.sizing = s.sizing := drainRemote_sizing
  have next : (s.drainRemote cfg).1.nextGrowth = s.nextGrowth :=
    congrArg Prod.fst sizing
  have deferred : (s.drainRemote cfg).1.deferredBytes = s.deferredBytes :=
    congrArg Prod.snd sizing
  unfold State.reclaim State.addDeferred
  generalize (s.drainRemote cfg).1 = u at chunks next deferred ⊢
  split
  · exact Or.inl ⟨chunks, deferred, next⟩
  · rename_i pending
    have added := addOwnedChunk_added cfg u os
      u.deferredBytes
    generalize u.addOwnedChunk cfg os u.deferredBytes = outcome at added ⊢
    cases added with
    | overflow => exact Or.inl ⟨chunks, deferred, next⟩
    | refused => exact Or.inl ⟨chunks, deferred, next⟩
    | @added length base sized granted =>
        have listed : (u.withChunk (ownedChunk base length)).chunks =
            ownedChunk base length :: u.chunks :=
          congrArg Prod.fst (withChunk_outer (s := u) (ownedChunk base length))
        rw [chunks] at granted listed
        rw [deferred] at pending
        exact Or.inr ⟨pending, base, length, granted, listed, rfl, rfl⟩

/-- A request that is refused for its alignment or its size changes nothing but the
statistics. -/
theorem allocateBytes_rejected
    (rejected : runAlignment < alignment ∨
      normalizedRunBytesForPayload (requestOf bytes) = none) :
    (s.allocateBytes cfg os bytes alignment).1.unmeasured = s.unmeasured := by
  unfold State.allocateBytes
  dsimp only
  split
  · rfl
  · rename_i small
    have none := rejected.resolve_left small
    unfold requestOf at none
    rw [none]
    exact (record_unmeasured _).trans (record_unmeasured _)

theorem allocateBytes_failed (ok : RunnerOk cfg s runs parked)
    (word : bytes < 2 ^ 64) (small : alignment ≤ runAlignment)
    (sized : normalizedRunBytesForPayload (requestOf bytes) = some needed)
    (fails : ∀ p ≠ 0, (s.allocateBytes cfg os bytes alignment).2 ≠ .ok p) :
    (s.allocateBytes cfg os bytes alignment).1.unmeasured =
      (s.reclaim cfg os).1.unmeasured := by
  have exits := allocateBytes_exit os ok word small sized
  generalize s.allocateBytes cfg os bytes alignment = result at exits fails ⊢
  cases exits with
  | drained fits nonnull => exact absurd rfl (fails _ nonnull)
  | refused full failed same =>
      rw [failed]
      exact same
  | first full reclaims fits nonnull => exact absurd rfl (fails _ nonnull)
  | exhausted full reclaims still fixed same =>
      rw [reclaims]
      exact same
  | ungrown full reclaims still growable failed same =>
      rw [reclaims]
      exact same
  | grown full reclaims still growable grows nonnull =>
      exact absurd rfl (fails _ nonnull)

theorem allocateBytes_supplied (ok : RunnerOk cfg s runs parked)
    (word : bytes < 2 ^ 64) (small : alignment ≤ runAlignment)
    (sized : normalizedRunBytesForPayload (requestOf bytes) = some needed)
    (supplies : Supplies cfg os s needed) :
    ∃ p ≠ 0, (s.allocateBytes cfg os bytes alignment).2 = .ok p := by
  obtain ⟨provided, room⟩ := supplies
  have exits := allocateBytes_exit os ok word small sized
  have deferred := fun exn => @addDeferred_fails cfg (s.drainRemote cfg).1 os exn
  obtain ⟨_, _, drains⟩ := drainRemote_spec ok
  have reclaimed : RunnerOk cfg (s.reclaim cfg os).1 (withoutPayloads runs parked)
      [] := (addDeferred_step os drains.ok).ok
  generalize s.allocateBytes cfg os bytes alignment = result at exits ⊢
  cases exits with
  | drained fits nonnull => exact ⟨_, nonnull, rfl⟩
  | @refused r t exn full failed same =>
      have thrown := deferred exn drains.ok.deferred (congrArg Prod.snd failed)
      rw [drainRemote_deferred, drainRemote_chunks] at thrown
      exact absurd (Or.inl thrown) (provided exn)
  | first full reclaims fits nonnull => exact ⟨_, nonnull, rfl⟩
  | exhausted full reclaims still fixed same =>
      rcases room with growable | ⟨u, again, fits⟩
      · rw [growable] at fixed
        cases fixed
      · rw [reclaims] at again
        obtain ⟨rfl, _⟩ := Prod.mk.inj again
        exact absurd still fits
  | @ungrown r t exn full reclaims still growable failed same =>
      rw [reclaims] at reclaimed
      exact absurd (Or.inr ⟨r, reclaims, growFor_fails reclaimed.growth failed⟩)
        (provided exn)
  | grown full reclaims still growable grows nonnull => exact ⟨_, nonnull, rfl⟩

/-- A failed allocation changes no live allocation, leaves a legal runner, has
reclaimed at most what was parked or deferred and can be repeated. -/
theorem failure_harmless (reachable : (sessions cfg).Reachable session)
    (word : bytes < 2 ^ 64)
    (fails : ∀ p ≠ 0,
      (session.state.allocateBytes cfg os bytes alignment).2 ≠ .ok p) :
    let s := session.state
    let t := (s.allocateBytes cfg os bytes alignment).1
    (∀ allocation ∈ session.live,
      (∀ size, s.Allocated (allocation.payload - 16) size →
        t.Allocated (allocation.payload - 16) size) ∧
      ∀ place, allocation.payload - 8 ≤ place → place < session.stop allocation →
        t.mem place = s.mem place) ∧
    SessionOk cfg ⟨t, session.live⟩ ∧
    (runAlignment < alignment ∨
        normalizedRunBytesForPayload (requestOf bytes) = none →
      t.unmeasured = s.unmeasured) ∧
    (¬ (runAlignment < alignment ∨
        normalizedRunBytesForPayload (requestOf bytes) = none) →
      t.unmeasured = (s.reclaim cfg os).1.unmeasured) ∧
    SizesKept os s t ∧
    ∀ needed, alignment ≤ runAlignment →
      normalizedRunBytesForPayload (requestOf bytes) = some needed →
      ∀ later, Supplies cfg later t needed →
        ∃ p ≠ 0, (t.allocateBytes cfg later bytes alignment).2 = .ok p := by
  obtain ⟨runs, parked, ok, held⟩ := (sessionOk_inductive cfg).reachable reachable
  obtain ⟨drained, outcome⟩ :=
    @allocateBytes_outcome cfg session.state runs parked os bytes alignment ok word
  have rejected := @allocateBytes_rejected cfg session.state os bytes alignment
  have failed := fun needed small sized => @allocateBytes_failed cfg session.state os
    runs parked needed bytes alignment ok word small sized fails
  dsimp only
  -- The step that ends without a run.
  have step : RunnerStep cfg session.state
      (session.state.allocateBytes cfg os bytes alignment).1
      (survivors drained runs parked) (survivors drained runs parked)
      (afterDrain drained parked) := by
    generalize session.state.allocateBytes cfg os bytes alignment = result
      at outcome fails ⊢
    obtain ⟨t, result⟩ := result
    dsimp only at outcome fails ⊢
    cases outcome with
    | run nonnull covers fresh step =>
        rename_i addr granted
        exact absurd rfl (fails (addr + 16) (by omega))
    | null step => exact step
    | throws step => exact step
  clear outcome
  generalize (session.state.allocateBytes cfg os bytes alignment).1 = t
    at step rejected failed ⊢
  have survives : ∀ run ∈ runs, run.addr + 16 ∉ parked →
      run ∈ survivors drained runs parked := by
    intro run member kept
    unfold survivors
    split
    · exact ⟨member, kept⟩
    · exact member
  refine ⟨fun allocation member => ⟨fun size marked => ?_,
    fun place lower upper => ?_⟩, ⟨_, _, step.ok, held.drain drained⟩, rejected,
    fun accepted => ?_, ?_, fun needed small sized later supplies =>
      allocateBytes_supplied step.ok word small sized supplies⟩
  · obtain ⟨run, runMember, addrEq, _, large, _⟩ :=
      held.run_spec ok ⟨allocation, member, rfl⟩
    have kept := held.unparked allocation member
    rw [← addrEq] at kept marked ⊢
    rw [Nat.add_sub_cancel] at marked ⊢
    rw [step.ok.allocated_iff]
    rw [ok.allocated_iff] at marked
    exact survives _ marked kept
  · obtain ⟨run, runMember, addrEq, notParked, large, runBytes⟩ :=
      held.run_spec ok ⟨allocation, member, rfl⟩
    unfold Session.stop at upper
    rw [← addrEq] at notParked
    refine step.keeps run (survives run runMember notParked) place (by omega) ?_
    unfold Block.stop
    omega
  · rw [not_or] at accepted
    obtain ⟨needed, sized⟩ := Option.ne_none_iff_exists'.mp accepted.2
    exact failed needed (Nat.le_of_not_lt accepted.1) sized
  · by_cases refusal : runAlignment < alignment ∨
        normalizedRunBytesForPayload (requestOf bytes) = none
    · have same := rejected refusal
      exact SizesKept.congr (Or.inl ⟨rfl, rfl, rfl⟩) same
    · rw [not_or] at refusal
      obtain ⟨needed, sized⟩ := Option.ne_none_iff_exists'.mp refusal.2
      exact reclaim_sizes.congr (failed needed (Nat.le_of_not_lt refusal.1) sized)

theorem sampleSession_failure_harmless :
    (sampleSession.state.allocateBytes sampleConfig refusing 5000 16).2 = .ok 0 ∧
      SizesKept refusing sampleSession.state
        (sampleSession.state.allocateBytes sampleConfig refusing 5000 16).1 := by
  have null : (sampleSession.state.allocateBytes sampleConfig refusing 5000 16).2 =
      .ok 0 := by decide +kernel
  refine ⟨null, (failure_harmless sampleSession_reachable (by decide) ?_).2.2.2.2.1⟩
  intro p nonnull served
  exact nonnull (Except.ok.inj (served.symm.trans null))

end Runner

end Allocazam
