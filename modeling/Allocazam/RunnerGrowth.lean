import Allocazam.RunnerTerritory

/-!
# Growth of a runner

Under an OS whose memory ends below the middle of the address space, the size of
the next chunk is a word that needs no rounding.  Small requests are then
refused by the OS only, never by the runner's own arithmetic.
-/

namespace Allocazam

namespace Runner

variable {cfg : Config} {s t : State} {os : Os}

/-- The memory of the OS ends below the middle of the address space. -/
def Os.LowHalf (os : Os) : Prop :=
  ∀ chunks bytes base, os.grant chunks bytes = some base →
    base + bytes ≤ 2 ^ 63

/-- The sizes of the deferred and of the next chunk are small or whole multiples
of the granularity. -/
structure Growing (cfg : Config) (members : Allocator) : Prop where
  positive : 0 < State.ownedChunkGranularity cfg
  granularity : State.ownedChunkGranularity cfg ≤ 2 ^ 63
  deferred : members.deferredBytes ≤ 65536
  next : members.nextGrowth ≤ 65536 ∨
    State.ownedChunkGranularity cfg ∣ members.nextGrowth

def Allocator.sizing (members : Allocator) : Nat × Nat :=
  (members.nextGrowth, members.deferredBytes)

theorem Growing.of_sizing (growing : Growing cfg s.toAllocator)
    (same : t.sizing = s.sizing) : Growing cfg t.toAllocator where
  positive := growing.positive
  granularity := growing.granularity
  deferred := by
    have deferred : t.deferredBytes = s.deferredBytes := congrArg Prod.snd same
    rw [deferred]
    exact growing.deferred
  next := by
    have next : t.nextGrowth = s.nextGrowth := congrArg Prod.fst same
    rw [next]
    exact growing.next

theorem State.sizing_of_outer (same : t.outer = s.outer) :
    t.sizing = s.sizing :=
  congrArg (fun members => (members.2.1, members.2.2.1)) same

theorem findFit_sizing (needed scanCount : Nat) :
    (s.findFit cfg needed scanCount).1.sizing = s.sizing :=
  State.sizing_of_outer (findFit_same needed scanCount).2.2.2

theorem drainWalk_sizing (fuel head : Nat) (s : State) :
    (State.drainWalk cfg fuel head s).sizing = s.sizing := by
  induction fuel generalizing head s with
  | zero => rfl
  | succ fuel ih =>
      unfold State.drainWalk
      split
      · rfl
      · dsimp only
        rw [ih]
        exact State.sizing_of_outer (deallocateBytes_outer head)

theorem drainRemote_sizing : (s.drainRemote cfg).1.sizing = s.sizing := by
  unfold State.drainRemote
  dsimp only
  split
  · rfl
  · exact drainWalk_sizing _ _ _

theorem allocateFromFreeRun_sizing (h needed : Nat) :
    (s.allocateFromFreeRun cfg h needed).1.sizing = s.sizing := by
  apply State.sizing_of_outer
  unfold State.allocateFromFreeRun
  dsimp only
  split <;> simp [State.makeRemainder, State.takeWhole, State.setHeader,
    State.writeFooter, State.addLiveBytes]

@[simp]
theorem record_sizing (update : Stats → Stats) :
    (s.record cfg update).sizing = s.sizing := by
  unfold State.record
  split <;> rfl

theorem expand_sizing (p minNewBytes : Nat) :
    (s.expand cfg p minNewBytes).1.sizing = s.sizing := by
  apply State.sizing_of_outer
  unfold State.expand
  dsimp only
  split
  · rfl
  split
  · rfl
  cases normalizedRunBytesForPayload minNewBytes with
  | none => rfl
  | some needed =>
      dsimp only
      split
      · rfl
      cases checkedAdd (s.runSize (headerFromPayload p))
          (s.runSize (s.nextRun (headerFromPayload p))) with
      | none => rfl
      | some combined =>
          dsimp only
          split
          · rfl
          unfold State.expandInto
          dsimp only
          split <;> split <;> simp [State.makeRemainder, State.takeWhole,
            State.setHeader, State.writeFooter, State.addLiveBytes]

theorem findOrDrain_sizing (needed : Nat) :
    (s.findOrDrain cfg needed).1.sizing = s.sizing := by
  have searched : (s.findFit cfg needed 0).1.sizing = s.sizing :=
    findFit_sizing needed 0
  unfold State.findOrDrain
  generalize s.findFit cfg needed 0 = found at *
  obtain ⟨u, h, count⟩ := found
  dsimp only at searched ⊢
  split
  · have drained : (u.drainRemote cfg).1.sizing = u.sizing := drainRemote_sizing
    generalize u.drainRemote cfg = outcome at *
    obtain ⟨v, reclaimed⟩ := outcome
    cases reclaimed with
    | true => exact (findFit_sizing needed count).trans (drained.trans searched)
    | false => exact drained.trans searched
  · exact searched

theorem finishAllocate_sizing (h needed : Nat) :
    (s.finishAllocate cfg h needed).1.sizing = s.sizing := by
  unfold State.finishAllocate State.failAllocate
  split
  · exact record_sizing _
  · dsimp only
    rw [record_sizing]
    exact allocateFromFreeRun_sizing h needed

theorem initializeFreeRun_sizing (chunk : ChunkNode) :
    (s.initializeFreeRun chunk).sizing = s.sizing := by
  apply State.sizing_of_outer
  simp [State.initializeFreeRun, State.setHeader, State.writeFooter]

theorem addOwnedChunk_sizing (bytes : Nat) :
    (s.addOwnedChunk cfg os bytes).1.sizing = s.sizing := by
  unfold State.addOwnedChunk
  cases State.ownedChunkBytesFor cfg bytes with
  | error exn => rfl
  | ok chunkBytes =>
      dsimp only
      cases State.allocateOwnedMemory cfg os s.chunks chunkBytes runAlignment with
      | none => rfl
      | some memory => exact initializeFreeRun_sizing _

theorem addOwnedChunk_bytes {bytes chunkBytes : Nat}
    (granularity : State.ownedChunkGranularity cfg ≤ 2 ^ 63)
    (added : (s.addOwnedChunk cfg os bytes).2 = .ok chunkBytes) :
    State.ownedChunkGranularity cfg ∣ chunkBytes ∧
      (os.LowHalf → chunkBytes < 2 ^ 63) := by
  unfold State.addOwnedChunk at added
  cases sized : State.ownedChunkBytesFor cfg bytes with
  | error exn =>
      rw [sized] at added
      cases added
  | ok rounded =>
      rw [sized] at added
      dsimp only at added
      cases obtained : State.allocateOwnedMemory cfg os s.chunks rounded
          runAlignment with
      | none =>
          rw [obtained] at added
          cases added
      | some memory =>
          rw [obtained] at added
          obtain rfl : rounded = chunkBytes := Except.ok.inj added
          obtain ⟨granted, covers⟩ := allocateOwnedMemory_granted obtained
          constructor
          · unfold State.ownedChunkBytesFor at sized
            cases exact : checkedRoundToMultipleOf (max bytes minChunkBytes)
                (State.ownedChunkGranularity cfg) with
            | none =>
                rw [exact] at sized
                cases sized
            | some multiple =>
                rw [exact] at sized
                obtain rfl : multiple = rounded := Except.ok.inj sized
                exact (checkedRoundToMultipleOf_eq_some (by omega) exact).2.1
          · intro low
            have top := low _ _ _ granted
            have positive := (os.sound _ _ _ granted).1
            omega

theorem addOwnedChunk_refused {bytes : Nat} {exn : Exn}
    (granularity : State.ownedChunkGranularity cfg ≤ 2 ^ 63)
    (positive : 0 < State.ownedChunkGranularity cfg)
    (sized : bytes ≤ 65536 ∨ State.ownedChunkGranularity cfg ∣ bytes)
    (thrown : (s.addOwnedChunk cfg os bytes).2 = .error exn) :
    exn = .refused := by
  have computed : ∃ chunkBytes, checkedRoundToMultipleOf (max bytes minChunkBytes)
      (State.ownedChunkGranularity cfg) = some chunkBytes := by
    have small : minChunkBytes ≤ 65536 := by decide
    by_cases whole : State.ownedChunkGranularity cfg ∣ max bytes minChunkBytes
    · exact ⟨_, checkedRoundToMultipleOf_of_dvd positive whole⟩
    · have bounded : max bytes minChunkBytes ≤ 65536 := by
        rcases sized with small' | exact
        · omega
        · rcases Nat.le_total bytes minChunkBytes with le | ge
          · omega
          · rw [max_eq_left ge] at whole
            exact absurd exact whole
      unfold checkedRoundToMultipleOf
      rw [if_neg positive.ne', if_neg fun exact =>
        whole (Nat.dvd_of_mod_eq_zero exact)]
      exact ⟨_, (checkedAdd_eq_some (by omega)).mpr ⟨by omega, rfl⟩⟩
  obtain ⟨chunkBytes, computed⟩ := computed
  unfold State.addOwnedChunk State.ownedChunkBytesFor at thrown
  rw [computed] at thrown
  dsimp only at thrown
  cases obtained : State.allocateOwnedMemory cfg os s.chunks chunkBytes
      runAlignment with
  | none =>
      rw [obtained] at thrown
      exact (Except.error.inj thrown).symm
  | some memory =>
      rw [obtained] at thrown
      cases thrown

section Growth

variable (growing : Growing cfg s.toAllocator)

include growing

theorem findOrDefer_growing (needed : Nat) {h scanCount : Nat} :
    Growing cfg
      (State.findOrDefer cfg os needed (s, h, scanCount)).1.toAllocator := by
  unfold State.findOrDefer
  dsimp only
  split
  · have same : (s.addOwnedChunk cfg os s.deferredBytes).1.sizing = s.sizing :=
      addOwnedChunk_sizing s.deferredBytes
    have whole : ∀ chunkBytes, (s.addOwnedChunk cfg os s.deferredBytes).2 =
        .ok chunkBytes → State.ownedChunkGranularity cfg ∣ chunkBytes :=
      fun chunkBytes added =>
        (addOwnedChunk_bytes growing.granularity added).1
    generalize s.addOwnedChunk cfg os s.deferredBytes = outcome at same whole ⊢
    obtain ⟨v, exn | chunkBytes⟩ := outcome
    · exact growing.of_sizing same
    · have resized : Growing cfg
          ({ v with nextGrowth := chunkBytes, deferredBytes := 0 } :
            State).toAllocator :=
        ⟨growing.positive, growing.granularity, Nat.zero_le _, Or.inr (whole _ rfl)⟩
      exact resized.of_sizing (findFit_sizing needed scanCount)
  · exact growing

theorem growFor_growing (low : os.LowHalf) (needed : Nat) :
    Growing cfg (s.growFor cfg os needed).1.toAllocator := by
  unfold State.growFor
  dsimp only
  have recorded : Growing cfg (s.record cfg fun stats =>
      { stats with growCalls := wrapAdd stats.growCalls 1 }).toAllocator :=
    growing.of_sizing (record_sizing _)
  generalize (s.record cfg fun stats =>
    { stats with growCalls := wrapAdd stats.growCalls 1 }) = u at recorded ⊢
  cases checkedAdd needed minChunkBytes with
  | none => exact recorded
  | some overhead =>
      dsimp only
      have same : (u.addOwnedChunk cfg os (max u.nextGrowth overhead)).1.sizing =
          u.sizing := addOwnedChunk_sizing _
      have whole : ∀ chunkBytes, (u.addOwnedChunk cfg os
          (max u.nextGrowth overhead)).2 = .ok chunkBytes →
            State.ownedChunkGranularity cfg ∣ chunkBytes ∧
              chunkBytes < 2 ^ 63 := fun chunkBytes added => by
        obtain ⟨divides, bounded⟩ :=
          addOwnedChunk_bytes growing.granularity added
        exact ⟨divides, bounded low⟩
      generalize u.addOwnedChunk cfg os (max u.nextGrowth overhead) = outcome
        at same whole ⊢
      obtain ⟨v, exn | chunkBytes⟩ := outcome
      · exact recorded.of_sizing same
      · obtain ⟨divides, bounded⟩ := whole _ rfl
        have after := recorded.of_sizing same
        have doubled : checkedMul chunkBytes 2 = some (chunkBytes * 2) :=
          checkedMul_eq_some.mpr ⟨by omega, rfl⟩
        refine ⟨growing.positive, growing.granularity, after.deferred, Or.inr ?_⟩
        dsimp only
        rw [doubled, Option.getD_some, max_eq_left (by omega)]
        exact Dvd.dvd.mul_right divides 2

theorem findOrGrow_growing (low : os.LowHalf) (needed h scanCount : Nat) :
    Growing cfg (s.findOrGrow cfg os needed h scanCount).1.toAllocator := by
  unfold State.findOrGrow
  split
  · have grown : Growing cfg (s.growFor cfg os needed).1.toAllocator :=
      growFor_growing growing low needed
    generalize s.growFor cfg os needed = outcome at grown ⊢
    obtain ⟨u, exn | done⟩ := outcome
    · exact grown
    · exact grown.of_sizing (findFit_sizing needed scanCount)
  · exact growing

theorem findOrDrain_growing (needed : Nat) :
    Growing cfg (s.findOrDrain cfg needed).1.toAllocator :=
  growing.of_sizing (findOrDrain_sizing needed)

theorem allocateBytes_growing (low : os.LowHalf) (bytes alignment : Nat) :
    Growing cfg (s.allocateBytes cfg os bytes alignment).1.toAllocator := by
  unfold State.allocateBytes
  dsimp only
  split
  · exact growing
  generalize (if bytes = 0 then 1 else bytes) = request
  have recorded : Growing cfg (s.record cfg fun stats =>
      { stats with
        allocateCalls := wrapAdd stats.allocateCalls 1
        requestedBytes := wrapAdd stats.requestedBytes request }).toAllocator :=
    growing.of_sizing (record_sizing _)
  generalize s.record cfg (fun stats =>
    { stats with
      allocateCalls := wrapAdd stats.allocateCalls 1
      requestedBytes := wrapAdd stats.requestedBytes request }) = u at recorded ⊢
  cases normalizedRunBytesForPayload request with
  | none => exact recorded.of_sizing (record_sizing _)
  | some needed =>
      dsimp only
      have searched := findOrDrain_growing recorded needed
      generalize u.findOrDrain cfg needed = found at searched ⊢
      obtain ⟨u, h, count⟩ := found
      unfold State.resumeAllocate
      have deferred : Growing cfg (State.findOrDefer cfg os needed
          (u, h, count)).1.toAllocator := findOrDefer_growing searched needed
      generalize State.findOrDefer cfg os needed (u, h, count) = stage
        at deferred ⊢
      obtain ⟨v, exn | pair⟩ := stage
      · exact deferred
      · have grown : Growing cfg
            (v.findOrGrow cfg os needed pair.1 pair.2).1.toAllocator :=
          findOrGrow_growing deferred low needed pair.1 pair.2
        dsimp only
        generalize v.findOrGrow cfg os needed pair.1 pair.2 = stage at grown ⊢
        obtain ⟨w, exn | h⟩ := stage
        · exact grown
        · exact grown.of_sizing (finishAllocate_sizing h needed)

theorem findOrDefer_refused {needed h scanCount : Nat} {exn : Exn}
    (thrown : (State.findOrDefer cfg os needed (s, h, scanCount)).2 =
      .error exn) : exn = .refused := by
  unfold State.findOrDefer at thrown
  dsimp only at thrown
  split at thrown
  · have refused : ∀ exn, (s.addOwnedChunk cfg os s.deferredBytes).2 =
        .error exn → exn = .refused := fun exn failed =>
      addOwnedChunk_refused growing.granularity growing.positive
        (Or.inl growing.deferred) failed
    generalize s.addOwnedChunk cfg os s.deferredBytes = outcome
      at refused thrown
    obtain ⟨v, failure | chunkBytes⟩ := outcome
    · obtain rfl : failure = exn := Except.error.inj thrown
      exact refused _ rfl
    · cases thrown
  · cases thrown

theorem growFor_refused {needed : Nat} {exn : Exn} (small : needed ≤ 65472)
    (thrown : (s.growFor cfg os needed).2 = .error exn) : exn = .refused := by
  unfold State.growFor at thrown
  dsimp only at thrown
  have recorded : Growing cfg (s.record cfg fun stats =>
      { stats with growCalls := wrapAdd stats.growCalls 1 }).toAllocator :=
    growing.of_sizing (record_sizing _)
  generalize (s.record cfg fun stats =>
    { stats with growCalls := wrapAdd stats.growCalls 1 }) = u
      at recorded thrown
  have overhead : minChunkBytes = 64 := rfl
  have summed : checkedAdd needed minChunkBytes = some (needed + minChunkBytes) :=
    (checkedAdd_eq_some (by omega)).mpr ⟨by omega, rfl⟩
  rw [summed] at thrown
  dsimp only at thrown
  have sized : max u.nextGrowth (needed + minChunkBytes) ≤ 65536 ∨
      State.ownedChunkGranularity cfg ∣
        max u.nextGrowth (needed + minChunkBytes) := by
    rcases Nat.le_total u.nextGrowth (needed + minChunkBytes) with le | ge
    · left
      omega
    · rw [max_eq_left ge]
      exact recorded.next
  have refused : ∀ exn, (u.addOwnedChunk cfg os
      (max u.nextGrowth (needed + minChunkBytes))).2 = .error exn →
        exn = .refused := fun exn failed =>
    addOwnedChunk_refused growing.granularity growing.positive sized failed
  generalize u.addOwnedChunk cfg os (max u.nextGrowth (needed + minChunkBytes)) =
    outcome at refused thrown
  obtain ⟨v, failure | chunkBytes⟩ := outcome
  · obtain rfl : failure = exn := Except.error.inj thrown
    exact refused _ rfl
  · cases thrown

theorem findOrGrow_refused {needed h scanCount : Nat} {exn : Exn}
    (small : needed ≤ 65472)
    (thrown : (s.findOrGrow cfg os needed h scanCount).2 = .error exn) :
    exn = .refused := by
  unfold State.findOrGrow at thrown
  split at thrown
  · have refused : ∀ exn, (s.growFor cfg os needed).2 = .error exn →
        exn = .refused := fun exn failed =>
      growFor_refused growing small failed
    generalize s.growFor cfg os needed = outcome at refused thrown
    obtain ⟨u, failure | done⟩ := outcome
    · obtain rfl : failure = exn := Except.error.inj thrown
      exact refused _ rfl
    · cases thrown
  · cases thrown

/-- A small allocation throws only when the OS refuses a chunk. -/
theorem allocateBytes_refused {bytes alignment : Nat} {exn : Exn}
    (small : bytes ≤ 4096)
    (thrown : (s.allocateBytes cfg os bytes alignment).2 = .error exn) :
    exn = .refused := by
  unfold State.allocateBytes at thrown
  dsimp only at thrown
  split at thrown
  · cases thrown
  have bounded : (if bytes = 0 then 1 else bytes) ≤ 4096 := by
    split <;> omega
  generalize (if bytes = 0 then 1 else bytes) = request at bounded thrown
  have recorded : Growing cfg (s.record cfg fun stats =>
      { stats with
        allocateCalls := wrapAdd stats.allocateCalls 1
        requestedBytes := wrapAdd stats.requestedBytes request }).toAllocator :=
    growing.of_sizing (record_sizing _)
  generalize s.record cfg (fun stats =>
    { stats with
      allocateCalls := wrapAdd stats.allocateCalls 1
      requestedBytes := wrapAdd stats.requestedBytes request }) = u
      at recorded thrown
  rw [normalizedRunBytesForPayload_eq (by omega), if_pos (by omega)] at thrown
  dsimp only at thrown
  have sized : max (16 + (request + 15) / 16 * 16) 48 ≤ 65472 := by omega
  generalize max (16 + (request + 15) / 16 * 16) 48 = needed at sized thrown
  have searched := findOrDrain_growing recorded needed
  generalize u.findOrDrain cfg needed = found at searched thrown
  obtain ⟨u, h, count⟩ := found
  unfold State.resumeAllocate at thrown
  have deferred : Growing cfg (State.findOrDefer cfg os needed
      (u, h, count)).1.toAllocator := findOrDefer_growing searched needed
  have refused : ∀ exn, (State.findOrDefer cfg os needed (u, h, count)).2 =
      .error exn → exn = .refused := fun exn failed =>
    findOrDefer_refused searched failed
  generalize State.findOrDefer cfg os needed (u, h, count) = stage
    at deferred refused thrown
  obtain ⟨v, failure | pair⟩ := stage
  · obtain rfl : failure = exn := Except.error.inj thrown
    exact refused _ rfl
  · dsimp only at thrown
    have refused : ∀ exn, (v.findOrGrow cfg os needed pair.1 pair.2).2 =
        .error exn → exn = .refused := fun exn failed =>
      findOrGrow_refused deferred sized failed
    generalize v.findOrGrow cfg os needed pair.1 pair.2 = stage at refused thrown
    obtain ⟨w, failure | h⟩ := stage
    · obtain rfl : failure = exn := Except.error.inj thrown
      exact refused _ rfl
    · dsimp only at thrown
      unfold State.finishAllocate State.failAllocate at thrown
      split at thrown <;> cases thrown

end Growth

end Runner

end Allocazam
