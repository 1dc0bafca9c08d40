import Allocazam.RunnerBoundaryTags
import Allocazam.RunnerRemoteParking

/-!
# The sizes of the runner

Every size the runner computes is the exact integer: normalised requests, bin
indices, the sums of coalescing and the lengths of chunks.
-/

namespace Allocazam

namespace Runner

variable {cfg : Config} {s t : State} {os : Os} {blocks : List Block}
  {needed : Nat}

/-- The multiples of the granularity that cover `bytes` bytes. -/
def chunkLengths (cfg : Config) (bytes : Nat) : Set Nat :=
  {length | State.ownedChunkGranularity cfg ∣ length ∧ bytes ≤ length}

theorem ownedChunkBytesFor_isLeast {bytes chunkBytes : Nat}
    (result : State.ownedChunkBytesFor cfg bytes = .ok chunkBytes) :
    IsLeast (chunkLengths cfg (max bytes minChunkBytes)) chunkBytes := by
  obtain ⟨_, granularityBound⟩ := @ownedChunkGranularity_spec cfg
  unfold State.ownedChunkBytesFor at result
  cases rounded : checkedRoundToMultipleOf (max bytes minChunkBytes)
      (State.ownedChunkGranularity cfg) with
  | none =>
      rw [rounded] at result
      cases result
  | some value =>
      rw [rounded] at result
      obtain rfl := Except.ok.inj result
      exact checkedRoundToMultipleOf_isLeast granularityBound rounded

/-- A chunk length cannot be computed when none of the right size is a word. -/
theorem ownedChunkBytesFor_eq_error {bytes : Nat} {exn : Exn}
    (bounded : bytes < 2 ^ 64) :
    State.ownedChunkBytesFor cfg bytes = .error exn ↔
      exn = .badAlloc ∧ ∀ length ∈ chunkLengths cfg (max bytes minChunkBytes),
        2 ^ 64 ≤ length := by
  obtain ⟨_, granularityBound⟩ := @ownedChunkGranularity_spec cfg
  have small : minChunkBytes = 64 := rfl
  have overflow := checkedRoundToMultipleOf_eq_none
    (show 0 < max bytes minChunkBytes by omega)
    (show max bytes minChunkBytes < 2 ^ 64 by omega) granularityBound
  unfold State.ownedChunkBytesFor
  constructor
  · intro failed
    cases rounded : checkedRoundToMultipleOf (max bytes minChunkBytes)
        (State.ownedChunkGranularity cfg) with
    | none =>
        rw [rounded] at failed
        exact ⟨(Except.error.inj failed).symm,
          fun length covering => overflow.mp rounded length covering.1 covering.2⟩
    | some value =>
        rw [rounded] at failed
        cases failed
  · rintro ⟨rfl, large⟩
    rw [overflow.mpr fun length divides covers => large length ⟨divides, covers⟩]

theorem allocateOwnedMemory_eq {chunks : List ChunkNode} {bytes : Nat}
    (large : 64 ≤ bytes) (whole : State.ownedChunkGranularity cfg ∣ bytes) :
    State.allocateOwnedMemory cfg os chunks bytes runAlignment =
      (os.grant chunks bytes).map fun base => (base, bytes) := by
  unfold State.allocateOwnedMemory
  rw [if_neg (by simp [hasSingleBit]; omega)]
  unfold State.ownedChunkGranularity at whole
  cases huge : cfg.huge with
  | true =>
      rw [if_pos huge] at whole
      rw [if_pos rfl, if_neg (by decide),
        checkedRoundToMultipleOf_of_dvd (by decide) whole]
      cases granted : os.grant chunks bytes <;> simp [granted]
  | false =>
      rw [if_neg (by decide)]
      cases os.grant chunks bytes <;> rfl

/-- The chunk at `base` that the OS granted. -/
def ownedChunk (base length : Nat) : ChunkNode :=
  ⟨base, length, base, length⟩

/-- The runner with a new chunk, all of it one free run. -/
def State.withChunk (s : State) (chunk : ChunkNode) : State :=
  State.initializeFreeRun { s with chunks := chunk :: s.chunks } chunk

/-- How `_add_owned_chunk` may end: without a length, without memory, or with a
chunk. -/
inductive ChunkAdded (cfg : Config) (s : State) (os : Os) (bytes : Nat) :
    State × Except Exn Nat → Prop
  | overflow (sized : State.ownedChunkBytesFor cfg bytes = .error .badAlloc) :
      ChunkAdded cfg s os bytes (s, .error .badAlloc)
  | refused {length : Nat}
      (sized : State.ownedChunkBytesFor cfg bytes = .ok length)
      (refuses : os.grant s.chunks length = none) :
      ChunkAdded cfg s os bytes (s, .error .refused)
  | added {length base : Nat}
      (sized : State.ownedChunkBytesFor cfg bytes = .ok length)
      (granted : os.grant s.chunks length = some base) :
      ChunkAdded cfg s os bytes (s.withChunk (ownedChunk base length), .ok length)

theorem addOwnedChunk_added (cfg : Config) (s : State) (os : Os) (bytes : Nat) :
    ChunkAdded cfg s os bytes (s.addOwnedChunk cfg os bytes) := by
  unfold State.addOwnedChunk
  cases sized : State.ownedChunkBytesFor cfg bytes with
  | error exn =>
      have thrown : exn = .badAlloc := by
        unfold State.ownedChunkBytesFor at sized
        split at sized
        · exact (Except.error.inj sized).symm
        · cases sized
      subst thrown
      exact .overflow sized
  | ok length =>
      obtain ⟨whole, covers⟩ := (ownedChunkBytesFor_isLeast sized).1
      dsimp only
      rw [allocateOwnedMemory_eq ((le_max_right _ _).trans covers) whole]
      cases granted : os.grant s.chunks length with
      | none => exact .refused sized granted
      | some base => exact .added sized granted

theorem withChunk_outer (chunk : ChunkNode) :
    (s.withChunk chunk).outer =
      (chunk :: s.chunks, s.nextGrowth, s.deferredBytes, s.remoteHead) := by
  have outer : (s.withChunk chunk).outer =
      ({ s with chunks := chunk :: s.chunks } : State).outer := by
    simp [State.withChunk, State.initializeFreeRun, State.setHeader,
      State.writeFooter]
  exact outer

/-- The chunk that `_grow_for` adds is the shortest that covers the growth size and
the request with its overhead. -/
theorem growFor_length (needed : Nat) :
    match s.growFor cfg os needed with
    | (t, .ok ()) => ∃ chunk, t.chunks = chunk :: s.chunks ∧
        IsLeast (chunkLengths cfg (max s.nextGrowth (needed + minChunkBytes)))
          chunk.bytes
    | (t, .error _) => t.chunks = s.chunks := by
  unfold State.growFor
  dsimp only
  have outer : (s.record cfg fun stats =>
      { stats with growCalls := wrapAdd stats.growCalls 1 }).outer =
      s.outer := by simp
  have chunks := State.chunks_of_outer outer
  have next : (s.record cfg fun stats =>
      { stats with growCalls := wrapAdd stats.growCalls 1 }).nextGrowth =
      s.nextGrowth := congrArg (fun members => members.2.1) outer
  generalize (s.record cfg fun stats =>
    { stats with growCalls := wrapAdd stats.growCalls 1 }) = u at chunks next ⊢
  cases summed : checkedAdd needed minChunkBytes with
  | none => exact chunks
  | some overhead =>
      obtain ⟨_, rfl⟩ := (checkedAdd_eq_some (by decide)).mp summed
      dsimp only
      rw [next]
      have added := addOwnedChunk_added cfg u os
        (max s.nextGrowth (needed + minChunkBytes))
      generalize u.addOwnedChunk cfg os
        (max s.nextGrowth (needed + minChunkBytes)) = outcome at added ⊢
      cases added with
      | overflow => exact chunks
      | refused => exact chunks
      | @added length base sized =>
          have listed := State.chunks_of_outer (s := { u with
            chunks := ownedChunk base length :: u.chunks }) (withChunk_outer _)
          rw [chunks] at listed
          refine ⟨_, listed, ?_⟩
          have least := ownedChunkBytesFor_isLeast sized
          rwa [max_eq_left (by omega)] at least

/-- The sums `deallocate_bytes` forms for the payload `p` without a check are
words. -/
def State.SumsFit (cfg : Config) (s : State) (p : Nat) : Prop :=
  let current := headerFromPayload p
  let size := s.runSize current
  let next := s.nextRun current
  let (merged, mergedSize) := s.coalesceNext cfg current size
  let prev := merged.prevRun current
  (next ≠ 0 → s.isFree next = true → size + s.runSize next < 2 ^ 64) ∧
    (merged.prevIsFree current = true → prev ≠ 0 → merged.isFree prev = true →
      mergedSize + merged.runSize prev < 2 ^ 64)

theorem HeapOk.sums_fit (heap : HeapOk cfg s blocks) {block : Block}
    (member : block ∈ usedRuns blocks) : s.SumsFit cfg (block.addr + 16) := by
  obtain ⟨inBlocks, used⟩ := member
  have notFence : block.kind ≠ .fence := by rw [used]; decide
  have sizeEq := heap.runSize inBlocks notFence
  obtain ⟨front, back, rfl⟩ := List.append_of_mem inBlocks
  obtain ⟨next, rest, rfl, stretch⟩ := Stretch.startUsed heap used
  obtain ⟨nextEq, nextSpec⟩ := stretch.nextRun_spec
    (show block.addr + s.runSize block.addr = block.addr + block.size by
      rw [sizeEq])
  unfold State.SumsFit
  dsimp only
  rw [headerFromPayload_eq, Nat.add_sub_cancel, sizeEq, nextEq]
  constructor
  · intro nonnull isFree
    have notEnd : next.kind ≠ .fence := fun isFence => nonnull (if_pos isFence)
    rw [if_neg notEnd] at isFree ⊢
    obtain ⟨flag, nextSize⟩ := nextSpec notEnd
    rw [flag, Block.isFree_iff] at isFree
    obtain ⟨later, _, _, _, absorbed⟩ := stretch.absorbNext isFree
    have bounds := absorbed.bounds
    rw [nextSize]
    omega
  · intro flagged _ _
    obtain ⟨old, next', back, size, merged, stretch', nonempty, _⟩ :=
      stretch.coalesceNext
    rw [merged]
    obtain ⟨earlier, prev, listed, free, prevEq, _, prevSize⟩ :=
      stretch'.prevRun_spec nonempty flagged
    obtain ⟨_, _, absorbed⟩ := stretch'.absorbPrev listed free nonempty
    have bounds := absorbed.bounds
    rw [prevEq, prevSize]
    omega

/-- The next step of the owner may deallocate the payload `p`: a holder gives it
back, or a drain replays it. -/
def World.Frees (w : World) (p : Nat) : Prop :=
  w.Holds p ∨ ∃ call next, w.owner = .replay call p next

/-- No size of the runner wraps, in any interleaving. -/
theorem sizes_exact {w : World} (reachable : (interleavings cfg).Reachable w) :
    (∀ bytes < 2 ^ 64, normalizedRunBytesForPayload bytes =
      if 16 + (bytes + 15) / 16 * 16 < 2 ^ 64 then
        some (max (16 + (bytes + 15) / 16 * 16) 48)
      else none) ∧
    (∀ bytes < 2 ^ 64, ∀ needed,
      normalizedRunBytesForPayload bytes = some needed → Normalized needed) ∧
    (∀ chunk ∈ w.state.chunks, ∀ run ∈ w.state.runsIn chunk,
      Normalized run.size) ∧
    (∀ size, Normalized size →
      (size ||| 1) + (minBinBytes - 1) < 2 ^ 64 ∧ binIndexFor size < binCount ∧
        ∀ larger, Normalized larger → size ≤ larger →
          binIndexFor size ≤ binIndexFor larger) ∧
    (∀ p, w.Frees p → w.state.SumsFit cfg p) ∧
    ∀ s os needed, match State.growFor cfg s os needed with
      | (t, .ok ()) => ∃ chunk, t.chunks = chunk :: s.chunks ∧
          IsLeast (chunkLengths cfg (max s.nextGrowth (needed + minChunkBytes)))
            chunk.bytes
      | (t, .error _) => t.chunks = s.chunks := by
  obtain ⟨runs, pending, inv⟩ := (worldOk_inductive cfg).reachable reachable
  obtain ⟨blocks, heap, used⟩ := inv.ok.heap
  refine ⟨fun bytes word => normalizedRunBytesForPayload_eq word,
    fun bytes word needed sized => ?_, fun chunk member run inChunk => ?_,
    fun size normalized => ?_, fun p frees => ?_,
    fun s os needed => growFor_length needed⟩
  · obtain ⟨aligned, large, _, bounded⟩ :=
      normalizedRunBytesForPayload_spec word sized
    exact ⟨aligned, large, bounded⟩
  · have view := heap.chunkView member
    obtain ⟨_, aligned, large⟩ := view.size_spec heap inChunk
    exact ⟨aligned, large, heap.layout.size_lt (view.mem_blocks inChunk)⟩
  · have aligned := normalized.aligned
    have bounded := normalized.word
    refine ⟨?_, binIndexFor_lt aligned bounded, fun larger other ordered =>
      binIndexFor_mono aligned other.aligned other.word ordered⟩
    have mask : minBinBytes - 1 = 7 := rfl
    rw [or_one_eq aligned]
    omega
  · obtain ⟨run, member, rfl⟩ : ∃ run ∈ runs, run.addr + 16 = p := by
      rcases frees with holds | ⟨call, next, phase⟩
      · obtain ⟨run, member, addrEq, _⟩ := inv.held.run holds
        exact ⟨run, member, addrEq⟩
      · have batch := inv.batch
        rw [phase] at batch
        obtain ⟨rest, rfl, _⟩ := batch
        exact inv.listed p (by simp [World.waiting])
    rw [← used] at member
    exact heap.sums_fit member

/-- Three runs have been allocated. -/
def servedWorld : World :=
  ((sampleWorld.search sampleConfig refusing 24 16).search sampleConfig refusing 24
    16).search sampleConfig refusing 24 16

/-- The first has been freed. -/
def freedWorld : World :=
  { servedWorld with toSession := servedWorld.perform sampleConfig (.deallocateBytes 4112) }

/-- And the third, so that the second has free neighbours on both sides. -/
def gappedWorld : World :=
  { freedWorld with toSession := freedWorld.perform sampleConfig (.deallocateBytes 4208) }

theorem gappedWorld_state :
    servedWorld.live.map Allocation.payload = [4208, 4160, 4112] ∧
      freedWorld.live.map Allocation.payload = [4208, 4160] ∧
      gappedWorld.live.map Allocation.payload = [4160] ∧
      gappedWorld.state.runsIn ⟨4096, 1024, 0, 0⟩ =
        [⟨4096, 48, .free⟩, ⟨4144, 48, .used⟩, ⟨4192, 912, .free⟩] ∧
      (gappedWorld.state.growFor sampleConfig highOs 5024).2.isOk = true := by
  decide +kernel

theorem gappedWorld_reachable : (interleavings sampleConfig).Reachable gappedWorld := by
  obtain ⟨served, freed, _⟩ := gappedWorld_state
  have begins : (interleavings sampleConfig).start sampleWorld :=
    ⟨.external (by decide : 0 < 4096) (by decide : 4096 + 1024 ≤ 2 ^ 64) rfl,
      rfl, rfl, rfl, rfl, rfl⟩
  have first := TransitionSystem.Reachable.step (.start begins)
    (Interleaves.search refusing 24 16 rfl (by decide))
  have second := first.step (Interleaves.search refusing 24 16 (by decide +kernel) (by decide))
  have third := second.step (Interleaves.search refusing 24 16 (by decide +kernel) (by decide))
  have fourth := third.step (Interleaves.call (.deallocateBytes 4112) (by decide +kernel)
    (.inl ⟨4112, rfl⟩) (holds_of_payloads served (by decide)))
  exact fourth.step (Interleaves.call (.deallocateBytes 4208) (by decide +kernel)
    (.inl ⟨4208, rfl⟩) (holds_of_payloads freed (by decide)))

/-- Sizes at the end of the word; the free of a run between two free ones; and the chunk of a
growth. -/
theorem gappedWorld_sizes :
    normalizedRunBytesForPayload (2 ^ 64 - 17) = none ∧
      normalizedRunBytesForPayload (2 ^ 64 - 32) = some (2 ^ 64 - 16) ∧
      ∃ w, (interleavings sampleConfig).Reachable w ∧
        w.state.runsIn ⟨4096, 1024, 0, 0⟩ =
          [⟨4096, 48, .free⟩, ⟨4144, 48, .used⟩, ⟨4192, 912, .free⟩] ∧
        w.state.SumsFit sampleConfig 4160 ∧
        ∃ chunk, (w.state.growFor sampleConfig highOs 5024).1.chunks =
            chunk :: w.state.chunks ∧
          IsLeast (chunkLengths sampleConfig
            (max w.state.nextGrowth (5024 + minChunkBytes))) chunk.bytes := by
  obtain ⟨normal, _⟩ := sizes_exact gappedWorld_reachable
  refine ⟨normal _ (by decide), normal _ (by decide), ?_⟩
  have gapped : ∃ w, (interleavings sampleConfig).Reachable w ∧ w.Holds 4160 ∧
      w.state.runsIn ⟨4096, 1024, 0, 0⟩ =
        [⟨4096, 48, .free⟩, ⟨4144, 48, .used⟩, ⟨4192, 912, .free⟩] ∧
      (w.state.growFor sampleConfig highOs 5024).2.isOk = true := by
    obtain ⟨_, _, live, runs, grows⟩ := gappedWorld_state
    exact ⟨gappedWorld, gappedWorld_reachable, holds_of_payloads live (by decide), runs, grows⟩
  obtain ⟨w, reachable, holds, runs, grows⟩ := gapped
  obtain ⟨_, _, _, _, sums, lengths⟩ := sizes_exact reachable
  refine ⟨w, reachable, runs, sums 4160 (.inl holds), ?_⟩
  have grown := lengths w.state highOs 5024
  generalize w.state.growFor sampleConfig highOs 5024 = outcome at grown grows ⊢
  obtain ⟨t, exn | done⟩ := outcome
  · cases grows
  · exact grown

end Runner

end Allocazam
