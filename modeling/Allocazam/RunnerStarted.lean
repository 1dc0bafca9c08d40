import Allocazam.RunnerGrowth
import Allocazam.RunnerRoom
import Allocazam.RunnerSizes

/-!
# Runners that have started

A runner has a deferred first chunk only as long as it has no chunk.  A fixed
runner with a chunk acquires no other, so that it serves exactly the requests
that have room.
-/

namespace Allocazam

namespace Runner

variable {cfg : Config} {s t : State} {os : Os} {runs : Set Block}
  {parked : List Nat} {spared : Set Nat} {needed bytes alignment : Nat}

def Started (members : Allocator) : Prop :=
  members.deferredBytes = 0 ∨ members.chunks = []

theorem Started.congr (started : Started s.toAllocator)
    (chunks : t.chunks = s.chunks) (sizing : t.sizing = s.sizing) :
    Started t.toAllocator := by
  have deferred : t.deferredBytes = s.deferredBytes := congrArg Prod.snd sizing
  unfold Started at started ⊢
  rw [deferred, chunks]
  exact started

theorem findOrDefer_started (cfg : Config) (os : Os)
    (started : Started s.toAllocator) (needed h scanCount : Nat) :
    Started (State.findOrDefer cfg os needed (s, h, scanCount)).1.toAllocator ∧
      ∀ count, (State.findOrDefer cfg os needed (s, h, scanCount)).2 =
        .ok (0, count) →
          (State.findOrDefer cfg os needed (s, h, scanCount)).1.deferredBytes =
            0 := by
  unfold State.findOrDefer
  dsimp only
  by_cases missing : h = 0 ∧ s.deferredBytes ≠ 0
  · rw [if_pos missing]
    have added := addOwnedChunk_added cfg s os s.deferredBytes
    generalize s.addOwnedChunk cfg os s.deferredBytes = outcome at added ⊢
    cases added with
    | overflow sized => exact ⟨started, fun _ served => by cases served⟩
    | refused sized refuses => exact ⟨started, fun _ served => by cases served⟩
    | @added length base sized granted =>
        dsimp only
        generalize s.withChunk (ownedChunk base length) = v
        have none : (({ v with nextGrowth := length, deferredBytes := 0 } :
            State).findFit cfg needed scanCount).1.deferredBytes = 0 :=
          congrArg Prod.snd (findFit_sizing needed scanCount)
        exact ⟨Or.inl none, fun _ _ => none⟩
  · rw [if_neg missing]
    refine ⟨started, fun count served => ?_⟩
    obtain ⟨null, _⟩ := Prod.mk.inj (Except.ok.inj served)
    by_contra deferred
    exact missing ⟨null, deferred⟩

theorem growFor_deferredBytes (needed : Nat) :
    (s.growFor cfg os needed).1.deferredBytes = s.deferredBytes := by
  unfold State.growFor
  dsimp only
  have recorded : (s.record cfg fun stats =>
      { stats with growCalls := wrapAdd stats.growCalls 1 }).deferredBytes =
        s.deferredBytes := congrArg Prod.snd (record_sizing _)
  generalize (s.record cfg fun stats =>
    { stats with growCalls := wrapAdd stats.growCalls 1 }) = u at recorded ⊢
  cases checkedAdd needed minChunkBytes with
  | none => exact recorded
  | some overhead =>
      dsimp only
      have same : (u.addOwnedChunk cfg os
          (max u.nextGrowth overhead)).1.deferredBytes = u.deferredBytes :=
        congrArg Prod.snd (addOwnedChunk_sizing _)
      generalize u.addOwnedChunk cfg os (max u.nextGrowth overhead) = outcome
        at same ⊢
      obtain ⟨v, exn | chunkBytes⟩ := outcome <;> exact same.trans recorded

theorem findOrGrow_started {h : Nat} (started : Started s.toAllocator)
    (none : h = 0 → s.deferredBytes = 0) (needed scanCount : Nat) :
    Started (s.findOrGrow cfg os needed h scanCount).1.toAllocator := by
  unfold State.findOrGrow
  by_cases missing : h = 0 ∧ cfg.canGrow
  · rw [if_pos missing]
    have grown : (s.growFor cfg os needed).1.deferredBytes = 0 := by
      rw [← none missing.1]
      exact growFor_deferredBytes needed
    generalize s.growFor cfg os needed = outcome at grown ⊢
    obtain ⟨u, exn | done⟩ := outcome
    · exact Or.inl grown
    · left
      show (u.findFit cfg needed scanCount).1.deferredBytes = 0
      rw [← grown]
      exact congrArg Prod.snd (findFit_sizing needed scanCount)
  · rw [if_neg missing]
    exact started

/-- An allocation leaves no chunk deferred once there is a chunk. -/
theorem allocateBytes_started (started : Started s.toAllocator)
    (bytes alignment : Nat) :
    Started (s.allocateBytes cfg os bytes alignment).1.toAllocator := by
  unfold State.allocateBytes
  dsimp only
  split
  · exact started
  generalize (if bytes = 0 then 1 else bytes) = request
  have recorded : Started (s.record cfg fun stats =>
      { stats with
        allocateCalls := wrapAdd stats.allocateCalls 1
        requestedBytes := wrapAdd stats.requestedBytes request }).toAllocator :=
    started.congr (record_chunks _) (record_sizing _)
  generalize s.record cfg (fun stats =>
    { stats with
      allocateCalls := wrapAdd stats.allocateCalls 1
      requestedBytes := wrapAdd stats.requestedBytes request }) = u at recorded ⊢
  cases normalizedRunBytesForPayload request with
  | none => exact recorded.congr (record_chunks _) (record_sizing _)
  | some needed =>
      dsimp only
      have searched : Started (u.findOrDrain cfg needed).1.toAllocator :=
        recorded.congr (findOrDrain_chunks needed) (findOrDrain_sizing needed)
      generalize u.findOrDrain cfg needed = found at searched ⊢
      obtain ⟨u, h, count⟩ := found
      unfold State.resumeAllocate
      have deferred := findOrDefer_started cfg os searched needed h count
      generalize State.findOrDefer cfg os needed (u, h, count) = stage
        at deferred ⊢
      obtain ⟨v, exn | ⟨h, count⟩⟩ := stage
      · exact deferred.1
      · have grown : Started
            (v.findOrGrow cfg os needed h count).1.toAllocator :=
          findOrGrow_started deferred.1
            (fun null => deferred.2 count (by rw [null])) needed count
        dsimp only
        generalize v.findOrGrow cfg os needed h count = stage at grown ⊢
        obtain ⟨w, exn | h⟩ := stage
        · exact grown
        · exact grown.congr (finishAllocate_chunks h needed)
            (finishAllocate_sizing h needed)

/-- A fixed runner without a deferred chunk acquires no chunk, and fails with
null only. -/
theorem allocateBytes_fixed (os : Os) (fixed : cfg.canGrow = false)
    (none : s.deferredBytes = 0) (bytes alignment : Nat) :
    (s.allocateBytes cfg os bytes alignment).1.chunks = s.chunks ∧
      ∃ p, (s.allocateBytes cfg os bytes alignment).2 = .ok p := by
  unfold State.allocateBytes
  dsimp only
  split
  · exact ⟨rfl, 0, rfl⟩
  generalize (if bytes = 0 then 1 else bytes) = request
  have chunks : (s.record cfg fun stats =>
      { stats with
        allocateCalls := wrapAdd stats.allocateCalls 1
        requestedBytes := wrapAdd stats.requestedBytes request }).chunks =
        s.chunks := record_chunks _
  have deferred : (s.record cfg fun stats =>
      { stats with
        allocateCalls := wrapAdd stats.allocateCalls 1
        requestedBytes := wrapAdd stats.requestedBytes request }).deferredBytes =
        s.deferredBytes := congrArg Prod.snd (record_sizing _)
  generalize s.record cfg (fun stats =>
    { stats with
      allocateCalls := wrapAdd stats.allocateCalls 1
      requestedBytes := wrapAdd stats.requestedBytes request }) = u
        at chunks deferred ⊢
  cases normalizedRunBytesForPayload request with
  | none => exact ⟨(record_chunks _).trans chunks, 0, rfl⟩
  | some needed =>
      dsimp only
      have searched : (u.findOrDrain cfg needed).1.chunks = u.chunks :=
        findOrDrain_chunks needed
      have settled : (u.findOrDrain cfg needed).1.deferredBytes =
          u.deferredBytes := congrArg Prod.snd (findOrDrain_sizing needed)
      generalize u.findOrDrain cfg needed = found at searched settled ⊢
      obtain ⟨v, h, count⟩ := found
      dsimp only at searched settled
      have kept : State.findOrDefer cfg os needed (v, h, count) =
          (v, .ok (h, count)) :=
        if_neg fun both => both.2 (settled.trans (deferred.trans none))
      have full : v.findOrGrow cfg os needed h count = (v, .ok h) :=
        if_neg fun both => by simp [fixed] at both
      unfold State.resumeAllocate
      rw [kept]
      dsimp only
      rw [full]
      dsimp only
      refine ⟨(finishAllocate_chunks h needed).trans (searched.trans chunks), ?_⟩
      unfold State.finishAllocate State.failAllocate
      split
      · exact ⟨0, rfl⟩
      · exact ⟨_, rfl⟩

namespace RunnerOk

variable (ok : RunnerOk cfg s runs parked)

include ok

/-- A fixed runner with a chunk serves exactly what has room beside the runs that
are not parked. -/
theorem fixed_serves (fixed : cfg.canGrow = false)
    (started : Started s.toAllocator) (chunked : s.chunks ≠ [])
    (word : bytes < 2 ^ 64) (positive : 0 < bytes) (small : alignment ≤ 16) :
    (s.allocateBytes cfg os bytes alignment).2 ≠ .ok 0 ↔
      s.HasRoom {p | p ∈ parked} bytes := by
  have none : s.deferredBytes = 0 := started.resolve_right chunked
  obtain ⟨same, p, result⟩ := allocateBytes_fixed os fixed none bytes alignment
  constructor
  · intro served
    rw [result] at served
    exact allocateBytes_room ok word (fun null => served (by rw [null])) same
      result
  · intro room
    obtain ⟨q, nonnull, served⟩ : ∃ q ≠ 0,
        (s.allocateBytes cfg os bytes alignment).2 = .ok q :=
      allocateBytes_served ok word positive small room
    rw [served]
    simpa using nonnull

/-- Where there is room for a payload, there is room up to the next quantum. -/
theorem room_rounded (room : s.HasRoom spared bytes) :
    s.HasRoom spared ((bytes + 15) / 16 * 16) := by
  obtain ⟨blocks, heap, rfl⟩ := ok.heap
  obtain ⟨chunk, member, start, lower, upper, clear⟩ := room
  have positive := heap.layout.chunksOk.positive chunk member
  have aligned := heap.layout.chunksOk.aligned chunk member
  have fenced : 16 ∣ chunk.first + chunk.bytes - 16 := by
    obtain ⟨front, back, listed, _⟩ := (heap.chunkView member).split
    have epilogue : (⟨chunk.first + chunk.bytes - 16, 16, .fence⟩ : Block) ∈
        blocks := by
      rw [listed]
      simp
    exact heap.layout.addr_dvd epilogue
  refine ⟨chunk, member, start / 16 * 16, by omega, by omega,
    fun addr size marked kept => ?_⟩
  have used := heap.allocated_iff.mp marked
  have addrAligned := heap.layout.addr_dvd used.1
  have stopAligned := (heap.layout.size_spec used.1).1
  dsimp only at addrAligned stopAligned
  rcases clear addr size marked kept with before | after <;> omega

end RunnerOk

end Runner

end Allocazam
