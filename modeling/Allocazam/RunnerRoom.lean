import Allocazam.RunnerCompleteness
import Allocazam.RunnerTerritory

/-!
# Room for a request

A request is served if some chunk has a header and its bytes in a row outside the
runs that are neither free nor parked, and a runner that acquires no chunk serves
no other.
-/

namespace Allocazam

namespace Runner

variable {cfg : Config} {s t : State} {os : Os} {runs : Set Block}
  {parked : List Nat} {needed bytes alignment : Nat} {spared : Set Nat}

/-- A chunk has a header and `bytes` bytes in a row, in front of its epilogue, that
belong to no run marked allocated, apart from the spared ones. -/
def State.HasRoom (s : State) (spared : Set Nat) (bytes : Nat) : Prop :=
  ∃ chunk ∈ s.chunks, ∃ start, chunk.first ≤ start ∧
    start + (16 + bytes) ≤ chunk.first + chunk.bytes - 16 ∧
    ∀ addr size, s.Allocated addr size → addr + 16 ∉ spared →
      addr + size ≤ start ∨ start + (16 + bytes) ≤ addr

/-- No chunk is lost and no run is marked allocated anew. -/
structure State.Shrinks (s t : State) : Prop where
  chunks : ∀ chunk ∈ s.chunks, chunk ∈ t.chunks
  allocated : ∀ addr size, t.Allocated addr size → s.Allocated addr size

namespace State.Shrinks

theorem refl (s : State) : s.Shrinks s :=
  ⟨fun _ member => member, fun _ _ marked => marked⟩

theorem trans {r : State} (first : s.Shrinks t) (second : t.Shrinks r) :
    s.Shrinks r where
  chunks chunk member := second.chunks chunk (first.chunks chunk member)
  allocated addr size marked :=
    first.allocated addr size (second.allocated addr size marked)

end State.Shrinks

namespace State.HasRoom

/-- Room stays while no run is in the way that was not. -/
theorem transfer {more : Set Nat} (room : s.HasRoom spared bytes)
    (chunks : ∀ chunk ∈ s.chunks, chunk ∈ t.chunks)
    (allocated : ∀ addr size, t.Allocated addr size → addr + 16 ∉ more →
      s.Allocated addr size ∧ addr + 16 ∉ spared) :
    t.HasRoom more bytes := by
  obtain ⟨chunk, member, start, lower, upper, clear⟩ := room
  refine ⟨chunk, chunks chunk member, start, lower, upper,
    fun addr size marked kept => ?_⟩
  obtain ⟨before, notSpared⟩ := allocated addr size marked kept
  exact clear addr size before notSpared

theorem mono {more : Set Nat} (room : s.HasRoom spared bytes)
    (subset : spared ⊆ more) : s.HasRoom more bytes :=
  room.transfer (fun _ member => member) fun _ _ marked kept =>
    ⟨marked, fun listed => kept (subset listed)⟩

/-- When all spared runs are free, the room is really there. -/
theorem released (room : s.HasRoom spared bytes) (shrinks : s.Shrinks t)
    (gone : ∀ addr size, t.Allocated addr size → addr + 16 ∉ spared) :
    t.HasRoom ∅ bytes :=
  room.transfer shrinks.chunks fun addr size marked _ =>
    ⟨shrinks.allocated addr size marked, gone addr size marked⟩

end State.HasRoom

namespace RunnerOk

variable (ok : RunnerOk cfg s runs parked)

include ok

theorem allocated_iff {addr size : Nat} :
    s.Allocated addr size ↔ (⟨addr, size, .used⟩ : Block) ∈ runs := by
  obtain ⟨blocks, heap, rfl⟩ := ok.heap
  exact heap.allocated_iff

theorem room_bounded (room : s.HasRoom spared bytes) : bytes + 48 ≤ 2 ^ 64 := by
  obtain ⟨blocks, heap, rfl⟩ := ok.heap
  obtain ⟨chunk, member, start, lower, upper, _⟩ := room
  have positive := heap.layout.chunksOk.positive chunk member
  have aligned := heap.layout.chunksOk.aligned chunk member
  have bounded := heap.layout.chunksOk.bounded chunk member
  omega

theorem shrinks {kept left : Set Block} {still : List Nat}
    (step : RunnerStep cfg s t kept left still) (subset : left ⊆ runs) :
    s.Shrinks t where
  chunks := step.chunks
  allocated addr size marked := by
    rw [step.ok.allocated_iff] at marked
    exact ok.allocated_iff.mpr (subset marked)

/-- Room is a free run that is large enough. -/
theorem exists_free (room : s.HasRoom ∅ bytes) :
    ∃ blocks, HeapOk cfg s blocks ∧
      ∃ block ∈ freeRuns blocks, 16 + bytes ≤ block.size := by
  obtain ⟨blocks, heap, rfl⟩ := ok.heap
  obtain ⟨chunk, member, start, lower, upper, clear⟩ := room
  have view := heap.chunkView member
  obtain ⟨block, inChunk, free, before, after⟩ := view.tiles.exists_free
    (view.coalesced heap) view.noFence
    (fun run inside => by have := (view.size_spec heap inside).2.2; omega)
    lower (by omega) upper fun run inside used => by
      have shape : (⟨run.addr, run.size, .used⟩ : Block) = run := by rw [← used]
      exact clear run.addr run.size ⟨chunk, member, by rwa [shape]⟩ (by simp)
  refine ⟨blocks, heap, block, ⟨view.mem_blocks inChunk, free⟩, ?_⟩
  unfold Block.stop at after
  omega

theorem findFit_served {scanCount : Nat} (word : bytes < 2 ^ 64)
    (sized : normalizedRunBytesForPayload bytes = some needed)
    (room : s.HasRoom ∅ bytes) :
    (s.findFit cfg needed scanCount).2.1 ≠ 0 := by
  obtain ⟨blocks, heap, block, free, fits⟩ := ok.exists_free room
  obtain ⟨large, aligned⟩ :=
    heap.layout.sizes block free.1 (by rw [free.2]; decide)
  rw [normalizedRunBytesForPayload_eq word] at sized
  split at sized
  · obtain rfl := Option.some.inj sized
    apply findFit_complete heap free
    · omega
    · omega
  · cases sized

/-- The search that drains serves what has room beside the runs that are not
parked. -/
theorem findOrDrain_served (word : bytes < 2 ^ 64)
    (sized : normalizedRunBytesForPayload bytes = some needed)
    (room : s.HasRoom {p | p ∈ parked} bytes) :
    (s.findOrDrain cfg needed).2.1 ≠ 0 := by
  obtain ⟨aligned, large, covers, bounded⟩ :=
    normalizedRunBytesForPayload_spec word sized
  have normalized : Normalized needed := ⟨aligned, large, bounded⟩
  obtain ⟨searched, candidate⟩ := findFit_step ok normalized
  have first : s.HasRoom ∅ bytes → (s.findFit cfg needed 0).2.1 ≠ 0 :=
    ok.findFit_served word sized
  unfold State.findOrDrain
  generalize s.findFit cfg needed 0 = found at *
  obtain ⟨u, h, count⟩ := found
  dsimp only at searched first ⊢
  by_cases null : h = 0
  · rw [if_pos null]
    obtain ⟨flag, _, drained⟩ := drainRemote_spec searched.ok
    generalize u.drainRemote cfg = outcome at *
    obtain ⟨v, reclaimed⟩ := outcome
    dsimp only at flag drained
    have clear : v.HasRoom ∅ bytes := by
      apply room.released
      · exact (ok.shrinks searched subset_rfl).trans
          (searched.ok.shrinks drained withoutPayloads_subset)
      · intro addr size marked
        exact (drained.ok.allocated_iff.mp marked).2
    cases reclaimed with
    | true => exact drained.ok.findFit_served word sized clear
    | false =>
        have empty : parked = [] := by simpa using flag
        subst empty
        exact fun _ => first (room.mono (by simp)) null
  · rw [if_neg null]
    exact null

end RunnerOk

/-- Once a run is found, the call serves it. -/
theorem resumeAllocate_found {h scanCount : Nat} (found : h ≠ 0) :
    (State.resumeAllocate cfg os needed (s, h, scanCount)).2 =
      .ok (h + 16) := by
  have deferred : State.findOrDefer cfg os needed (s, h, scanCount) =
      (s, .ok (h, scanCount)) := if_neg fun both => found both.1
  have grown : s.findOrGrow cfg os needed h scanCount = (s, .ok h) :=
    if_neg fun both => found both.1
  unfold State.resumeAllocate
  rw [deferred]
  dsimp only
  rw [grown]
  unfold State.finishAllocate
  dsimp only
  rw [if_neg found]
  rfl

section Allocate

variable (ok : RunnerOk cfg s runs parked) (word : bytes < 2 ^ 64)
  (positive : 0 < bytes) (small : alignment ≤ 16)

include ok word positive small

theorem allocateBytes_served (room : s.HasRoom {p | p ∈ parked} bytes) :
    ∃ p ≠ 0, (s.allocateBytes cfg os bytes alignment).2 = .ok p := by
  unfold State.allocateBytes
  rw [if_neg positive.ne', if_neg (Nat.not_lt.mpr small)]
  dsimp only
  have recorded := ok.same (t := s.record cfg fun stats =>
    { stats with
      allocateCalls := wrapAdd stats.allocateCalls 1
      requestedBytes := wrapAdd stats.requestedBytes bytes })
    (by simp) (by simp) (by simp) (by simp)
  have same : (s.record cfg fun stats =>
    { stats with
      allocateCalls := wrapAdd stats.allocateCalls 1
      requestedBytes := wrapAdd stats.requestedBytes bytes }).HasRoom
        {p | p ∈ parked} bytes := by
    obtain ⟨chunk, member, start, lower, upper, clear⟩ := room
    have shrinks := ok.shrinks recorded subset_rfl
    exact ⟨chunk, shrinks.chunks chunk member, start, lower, upper,
      fun addr size marked => clear addr size
        (shrinks.allocated addr size marked)⟩
  generalize s.record cfg (fun stats =>
    { stats with
      allocateCalls := wrapAdd stats.allocateCalls 1
      requestedBytes := wrapAdd stats.requestedBytes bytes }) = u at *
  cases sized : normalizedRunBytesForPayload bytes with
  | none =>
      have bounded := ok.room_bounded room
      rw [normalizedRunBytesForPayload_eq word, if_pos (by omega)] at sized
      cases sized
  | some needed =>
      dsimp only
      have found := recorded.ok.findOrDrain_served word sized same
      generalize u.findOrDrain cfg needed = result at found ⊢
      obtain ⟨v, h, count⟩ := result
      exact ⟨h + 16, by omega, resumeAllocate_found found⟩

end Allocate

/-- A small request that ends with null has freed all that was parked. -/
theorem allocateBytes_null (ok : RunnerOk cfg s runs parked)
    (positive : 0 < bytes) (bounded : bytes + 48 ≤ 2 ^ 64)
    (small : alignment ≤ 16)
    (null : (s.allocateBytes cfg os bytes alignment).2 = .ok 0) :
    RunnerStep cfg s (s.allocateBytes cfg os bytes alignment).1
      (withoutPayloads runs parked) (withoutPayloads runs parked) [] := by
  unfold State.allocateBytes at null ⊢
  rw [if_neg positive.ne', if_neg (Nat.not_lt.mpr small)] at null ⊢
  dsimp only at null ⊢
  have recorded := ok.same (t := s.record cfg fun stats =>
    { stats with
      allocateCalls := wrapAdd stats.allocateCalls 1
      requestedBytes := wrapAdd stats.requestedBytes bytes })
    (by simp) (by simp) (by simp) (by simp)
  generalize s.record cfg (fun stats =>
    { stats with
      allocateCalls := wrapAdd stats.allocateCalls 1
      requestedBytes := wrapAdd stats.requestedBytes bytes }) = u at *
  have sized : normalizedRunBytesForPayload bytes =
      some (max (16 + (bytes + 15) / 16 * 16) 48) := by
    rw [normalizedRunBytesForPayload_eq (by omega), if_pos (by omega)]
  obtain ⟨aligned, large, covers, needBound⟩ :=
    normalizedRunBytesForPayload_spec (by omega) sized
  generalize max (16 + (bytes + 15) / 16 * 16) 48 = needed at *
  rw [sized] at null ⊢
  dsimp only at null ⊢
  have normalized : Normalized needed := ⟨aligned, large, needBound⟩
  obtain ⟨drained, searched, candidate, emptied⟩ :=
    findOrDrain_step recorded.ok normalized
  generalize u.findOrDrain cfg needed = result at *
  obtain ⟨v, h, count⟩ := result
  dsimp only at searched candidate emptied null ⊢
  have missing : h = 0 := by
    by_contra found
    have served := (resumeAllocate_found found).symm.trans null
    have pointer := Except.ok.inj served
    omega
  have clear := emptied missing
  have left : survivors drained runs parked = withoutPayloads runs parked := by
    cases drained with
    | true => rfl
    | false =>
        obtain rfl : parked = [] := clear
        exact withoutPayloads_nil.symm
  rw [left, clear] at searched
  rw [left] at candidate
  have outcome : Outcome cfg (v, h, count).1
      (State.resumeAllocate cfg os needed (v, h, count)).1
      (withoutPayloads runs parked) [] bytes
      (State.resumeAllocate cfg os needed (v, h, count)).2 :=
    resumeAllocate_outcome searched.ok candidate normalized (by omega)
  rw [null] at outcome
  cases outcome with
  | null step =>
      exact recorded.trans (searched.trans step subset_rfl) withoutPayloads_subset

/-- A request that is served without a new chunk had room. -/
theorem allocateBytes_room (ok : RunnerOk cfg s runs parked)
    (word : bytes < 2 ^ 64) {p : Nat} (nonnull : p ≠ 0)
    (same : (s.allocateBytes cfg os bytes alignment).1.chunks = s.chunks)
    (served : (s.allocateBytes cfg os bytes alignment).2 = .ok p) :
    s.HasRoom {p | p ∈ parked} bytes := by
  obtain ⟨drained, outcome⟩ := allocateBytes_outcome ok word
  rw [served] at outcome
  cases outcome with
  | null step => exact absurd rfl nonnull
  | @run addr granted _ covers fresh step =>
      have after := step.ok
      obtain ⟨blocks, heap, used⟩ := after.heap
      have mine : (⟨addr, granted, .used⟩ : Block) ∈ usedRuns blocks := by
        rw [used]
        exact Set.mem_insert _ _
      obtain ⟨chunk, member, lower, _, upper⟩ := heap.layout.mem_chunk mine.1
      have stop := upper (by simp)
      unfold Block.stop at stop
      rw [same] at member
      refine ⟨chunk, member, addr, lower, by dsimp only at stop; omega, ?_⟩
      intro other size marked kept
      have listed := ok.allocated_iff.mp marked
      have survives : (⟨other, size, .used⟩ : Block) ∈
          survivors drained runs parked := by
        unfold survivors
        split
        · exact ⟨listed, kept⟩
        · exact listed
      have there : (⟨other, size, .used⟩ : Block) ∈ usedRuns blocks := by
        rw [used]
        exact Set.mem_insert_of_mem _ survives
      have apart := heap.layout.apart there.1 mine.1 fun equal =>
        fresh _ survives (congrArg Block.addr equal)
      unfold Block.Apart Block.stop at apart
      dsimp only at apart
      omega

end Runner

end Allocazam
