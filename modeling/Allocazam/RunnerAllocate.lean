import Allocazam.RunnerInvariant

/-!
# Specification of `allocate_bytes`

The stages of an allocation (search, drain, deferred chunk, growth, carving)
one by one, and the whole call: it may drain the remote stack and add chunks,
and ends with a new run, with null or with an exception.
-/

namespace Allocazam

namespace Runner

variable {cfg : Config} {s t : State} {blocks : List Block} {runs : Set Block}
  {parked : List Nat} {needed scanCount h : Nat}

/-- `h` is null or a free run of some layout of the state with room for `needed`
bytes. -/
def Candidate (cfg : Config) (s : State) (runs : Set Block) (needed h : Nat) :
    Prop :=
  h = 0 ∨ ∃ blocks, HeapOk cfg s blocks ∧ usedRuns blocks = runs ∧
    ∃ block ∈ freeRuns blocks, block.addr = h ∧ needed ≤ block.size

/-- A size `_find_fit` is called with. -/
structure Normalized (needed : Nat) : Prop where
  aligned : 16 ∣ needed
  large : 48 ≤ needed
  word : needed < 2 ^ 64

/-- A step that changes only bins, links and statistics of the allocator
itself. -/
theorem RunnerOk.same (ok : RunnerOk cfg s runs parked) (mem : t.mem = s.mem)
    (bins : t.bins = s.bins) (mask : t.binNonemptyMask = s.binNonemptyMask)
    (outer : t.outer = s.outer) : RunnerStep cfg s t runs runs parked := by
  obtain ⟨blocks, heap, rfl⟩ := ok.heap
  have chunks := State.chunks_of_outer outer
  refine ok.heapStep ⟨Effect.refl.congr rfl rfl chunks mem, blocks,
    heap.congr chunks mem bins mask, rfl⟩ outer ?_ ok.parkedRuns
  rw [mem, State.remoteHead_of_outer outer]
  exact ok.stack

theorem findFit_step (ok : RunnerOk cfg s runs parked)
    (normalized : Normalized needed) :
    RunnerStep cfg s (s.findFit cfg needed scanCount).1 runs runs parked ∧
      Candidate cfg (s.findFit cfg needed scanCount).1 runs needed
        (s.findFit cfg needed scanCount).2.1 := by
  obtain ⟨mem, bins, mask, outer⟩ :=
    @findFit_same cfg s needed scanCount
  refine ⟨ok.same mem bins mask outer, ?_⟩
  obtain ⟨blocks, heap, rfl⟩ := ok.heap
  rcases findFit_sound heap normalized.aligned
    normalized.word with null | found
  · exact Or.inl null
  · exact Or.inr ⟨blocks, findFit_heap heap, rfl, found⟩

/-- What is parked after the remote stack was drained or left alone. -/
def afterDrain (drained : Bool) (parked : List Nat) : List Nat :=
  if drained then [] else parked

/-- What is allocated after the remote stack was drained or left alone. -/
def survivors (drained : Bool) (runs : Set Block) (parked : List Nat) :
    Set Block :=
  if drained then withoutPayloads runs parked else runs

theorem survivors_subset {drained : Bool} :
    survivors drained runs parked ⊆ runs := by
  unfold survivors
  split
  · exact withoutPayloads_subset
  · exact subset_rfl

theorem survivors_parkedRuns {drained : Bool}
    (ok : RunnerOk cfg s runs parked) :
    ∀ p ∈ afterDrain drained parked,
      ∃ run ∈ survivors drained runs parked, run.addr + 16 = p := by
  cases drained with
  | false => exact ok.parkedRuns
  | true => simp [afterDrain]

theorem findOrDrain_step (ok : RunnerOk cfg s runs parked)
    (normalized : Normalized needed) :
    ∃ drained, RunnerStep cfg s (s.findOrDrain cfg needed).1
        (survivors drained runs parked) (survivors drained runs parked)
        (afterDrain drained parked) ∧
      Candidate cfg (s.findOrDrain cfg needed).1
        (survivors drained runs parked) needed
        (s.findOrDrain cfg needed).2.1 ∧
      ((s.findOrDrain cfg needed).2.1 = 0 → afterDrain drained parked = []) := by
  obtain ⟨searched, candidate⟩ := findFit_step ok normalized
  unfold State.findOrDrain
  generalize s.findFit cfg needed 0 = found at *
  obtain ⟨u, h, count⟩ := found
  dsimp only at searched candidate ⊢
  by_cases null : h = 0
  · rw [if_pos null]
    obtain ⟨flag, _, drainStep⟩ := drainRemote_spec searched.ok
    generalize u.drainRemote cfg = drained at *
    obtain ⟨v, reclaimed⟩ := drained
    dsimp only at flag drainStep
    cases reclaimed with
    | true =>
        obtain ⟨again, candidate⟩ :=
          findFit_step drainStep.ok normalized
        refine ⟨true, ?_, candidate, fun _ => rfl⟩
        have first : RunnerStep cfg s v (withoutPayloads runs parked)
            (withoutPayloads runs parked) [] :=
          searched.trans drainStep withoutPayloads_subset
        exact first.trans again subset_rfl
    | false =>
        have empty : parked = [] := by simpa using flag
        subst empty
        rw [withoutPayloads_nil] at drainStep
        exact ⟨false, searched.trans drainStep subset_rfl, Or.inl null,
          fun _ => rfl⟩
  · rw [if_neg null]
    exact ⟨false, searched, candidate, fun found => absurd found null⟩

/-- Adding a chunk as a step of the runner. -/
theorem addOwnedChunk_step {os : Os} {bytes : Nat}
    (ok : RunnerOk cfg s runs parked) (bounded : bytes < 2 ^ 64) :
    RunnerStep cfg s (s.addOwnedChunk cfg os bytes).1 runs runs parked ∧
      ∀ chunkBytes, (s.addOwnedChunk cfg os bytes).2 = .ok chunkBytes →
        chunkBytes < 2 ^ 64 := by
  obtain ⟨blocks, heap, rfl⟩ := ok.heap
  rcases addOwnedChunk_spec heap bounded with
    ⟨⟨exn, failed⟩, unchanged⟩ |
    ⟨chunk, fresh, succeeded, covers, chunkBound, granted, step, outer⟩
  · rw [unchanged, failed]
    exact ⟨ok.same rfl rfl rfl rfl, by simp⟩
  · generalize s.addOwnedChunk cfg os bytes = added at *
    have growth : added.1.nextGrowth = s.nextGrowth :=
      congrArg (fun members => members.2.1) outer
    have deferred : added.1.deferredBytes = s.deferredBytes :=
      congrArg (fun members => members.2.2.1) outer
    refine ⟨⟨step.toEffect, {
      heap := step.heap
      stack := ok.stack_kept step.toEffect
        (congrArg (fun members => members.2.2.2) outer) fun run member _ =>
          member
      parkedRuns := ok.parkedRuns
      growth := by rw [growth]; exact ok.growth
      deferred := by rw [deferred]; exact ok.deferred }⟩, ?_⟩
    rintro chunkBytes result
    obtain rfl := Except.ok.inj (succeeded.symm.trans result)
    exact chunkBound

theorem RunnerOk.resize (ok : RunnerOk cfg s runs parked)
    (mem : t.mem = s.mem) (bins : t.bins = s.bins)
    (mask : t.binNonemptyMask = s.binNonemptyMask)
    (chunks : t.chunks = s.chunks) (head : t.remoteHead = s.remoteHead)
    (growth : t.nextGrowth < 2 ^ 64) (deferred : t.deferredBytes < 2 ^ 64) :
    RunnerStep cfg s t runs runs parked := by
  obtain ⟨blocks, heap, rfl⟩ := ok.heap
  exact ⟨Effect.refl.congr rfl rfl chunks mem, {
    heap := ⟨blocks, heap.congr chunks mem bins mask, rfl⟩
    stack := by rw [mem, head]; exact ok.stack
    parkedRuns := ok.parkedRuns
    growth := growth
    deferred := deferred }⟩

theorem findOrDefer_step {os : Os} {found : State × Nat × Nat}
    (ok : RunnerOk cfg found.1 runs parked)
    (candidate : Candidate cfg found.1 runs needed found.2.1)
    (normalized : Normalized needed) :
    RunnerStep cfg found.1 (State.findOrDefer cfg os needed found).1 runs runs
        parked ∧
      ∀ h scanCount,
        (State.findOrDefer cfg os needed found).2 = .ok (h, scanCount) →
          Candidate cfg (State.findOrDefer cfg os needed found).1 runs needed
            h := by
  obtain ⟨s, h, scanCount⟩ := found
  dsimp only at ok candidate
  unfold State.findOrDefer
  dsimp only
  by_cases defer : h = 0 ∧ s.deferredBytes ≠ 0
  · rw [if_pos defer]
    obtain ⟨added, bound⟩ := addOwnedChunk_step ok ok.deferred
    generalize s.addOwnedChunk cfg os s.deferredBytes = result at *
    obtain ⟨u, outcome⟩ := result
    cases outcome with
    | error exn => exact ⟨added, by simp⟩
    | ok chunkBytes =>
        dsimp only at added bound ⊢
        have resized := added.ok.resize (t := { u with
            nextGrowth := chunkBytes, deferredBytes := 0 }) rfl rfl rfl rfl rfl
          (bound chunkBytes rfl) (by simp)
        obtain ⟨searched, candidate⟩ :=
          findFit_step resized.ok normalized
        refine ⟨(added.trans resized subset_rfl).trans searched subset_rfl,
          fun h count same => ?_⟩
        obtain ⟨rfl, rfl⟩ := Prod.mk.inj (Except.ok.inj same)
        exact candidate
  · rw [if_neg defer]
    refine ⟨ok.same rfl rfl rfl rfl, fun h count same => ?_⟩
    obtain ⟨rfl, rfl⟩ := Prod.mk.inj (Except.ok.inj same)
    exact candidate

theorem growFor_step {os : Os} (ok : RunnerOk cfg s runs parked)
    (normalized : Normalized needed) :
    RunnerStep cfg s (s.growFor cfg os needed).1 runs runs parked := by
  unfold State.growFor
  dsimp only
  have recorded := ok.same (t := s.record cfg fun stats =>
    { stats with growCalls := wrapAdd stats.growCalls 1 })
    (by simp) (by simp) (by simp) (by simp)
  generalize s.record cfg (fun stats =>
    { stats with growCalls := wrapAdd stats.growCalls 1 }) = u at *
  have word := normalized.word
  cases overhead : checkedAdd needed minChunkBytes with
  | none => exact recorded
  | some withOverhead =>
      have bounded := (checkedAdd_eq_some (by decide)).mp overhead
      have growth := recorded.ok.growth
      obtain ⟨added, bound⟩ := addOwnedChunk_step
        recorded.ok (show max u.nextGrowth withOverhead < 2 ^ 64 by omega)
      dsimp only
      generalize u.addOwnedChunk cfg os (max u.nextGrowth withOverhead) =
        result at *
      obtain ⟨v, outcome⟩ := result
      cases outcome with
      | error exn => exact recorded.trans added subset_rfl
      | ok chunkBytes =>
          have chunkBound := bound chunkBytes rfl
          have doubled : (checkedMul chunkBytes 2).getD (2 ^ 64 - 1) <
              2 ^ 64 := by
            cases product : checkedMul chunkBytes 2 with
            | none => decide
            | some value =>
                have := checkedMul_eq_some.mp product
                simp only [Option.getD_some]
                omega
          dsimp only at added ⊢
          have resized := added.ok.resize (t := { v with
              nextGrowth := max ((checkedMul chunkBytes 2).getD (2 ^ 64 - 1))
                chunkBytes }) rfl rfl rfl rfl rfl
            (by simp only; omega) added.ok.deferred
          exact recorded.trans (added.trans resized subset_rfl) subset_rfl

theorem findOrGrow_step {os : Os} (ok : RunnerOk cfg s runs parked)
    (candidate : Candidate cfg s runs needed h)
    (normalized : Normalized needed) :
    RunnerStep cfg s (s.findOrGrow cfg os needed h scanCount).1 runs runs
        parked ∧
      ∀ h', (s.findOrGrow cfg os needed h scanCount).2 = .ok h' →
        Candidate cfg (s.findOrGrow cfg os needed h scanCount).1 runs needed
          h' := by
  unfold State.findOrGrow
  by_cases grow : h = 0 ∧ cfg.canGrow = true
  · rw [if_pos grow]
    have grown : RunnerStep cfg s (s.growFor cfg os needed).1 runs runs parked :=
      growFor_step ok normalized
    generalize s.growFor cfg os needed = result at *
    obtain ⟨u, outcome⟩ := result
    cases outcome with
    | error exn => exact ⟨grown, by simp⟩
    | ok done =>
        dsimp only at grown ⊢
        obtain ⟨searched, candidate⟩ :=
          findFit_step grown.ok normalized
        refine ⟨grown.trans searched subset_rfl, fun h' same => ?_⟩
        obtain rfl := Except.ok.inj same
        exact candidate
  · rw [if_neg grow]
    refine ⟨ok.same rfl rfl rfl rfl, fun h' same => ?_⟩
    obtain rfl := Except.ok.inj same
    exact candidate

/-- How a call of `allocate_bytes` for `bytes` bytes may end, with the runs
`rest` kept and `left` still parked: with a run that was not allocated before,
or without one. -/
inductive Outcome (cfg : Config) (s t : State) (rest : Set Block)
    (left : List Nat) (bytes : Nat) : Except Exn Nat → Prop
  | run {addr granted : Nat} (nonnull : addr ≠ 0)
      (covers : bytes + 16 ≤ granted)
      (fresh : ∀ run ∈ rest, run.addr ≠ addr)
      (step : RunnerStep cfg s t rest (insert ⟨addr, granted, .used⟩ rest) left) :
      Outcome cfg s t rest left bytes (.ok (addr + 16))
  | null (step : RunnerStep cfg s t rest rest left) :
      Outcome cfg s t rest left bytes (.ok 0)
  | throws {exn : Exn} (step : RunnerStep cfg s t rest rest left) :
      Outcome cfg s t rest left bytes (.error exn)

theorem Outcome.after {r : State} {bytes : Nat} {result : Except Exn Nat}
    (first : RunnerStep cfg s t runs runs parked)
    (outcome : Outcome cfg t r runs parked bytes result) :
    Outcome cfg s r runs parked bytes result := by
  cases outcome with
  | run nonnull covers fresh step =>
      exact .run nonnull covers fresh (first.trans step subset_rfl)
  | null step => exact .null (first.trans step subset_rfl)
  | throws step => exact .throws (first.trans step subset_rfl)

theorem finishAllocate_outcome {bytes : Nat} (ok : RunnerOk cfg s runs parked)
    (candidate : Candidate cfg s runs needed h)
    (normalized : Normalized needed) (covers : bytes + 16 ≤ needed) :
    Outcome cfg s (s.finishAllocate cfg h needed).1 runs parked bytes
      (s.finishAllocate cfg h needed).2 := by
  unfold State.finishAllocate
  rcases candidate with null | ⟨blocks, heap, rfl, block, member, rfl, fits⟩
  · rw [if_pos null]
    unfold State.failAllocate
    exact .null (ok.same (by simp) (by simp) (by simp) (by simp))
  · have nonnull := (heap.layout.addr_pos member.1).ne'
    rw [if_neg nonnull]
    obtain ⟨granted, enough, step, outer⟩ := allocateFromFreeRun_spec heap
      member normalized.aligned normalized.large fits
    have pointer : (s.allocateFromFreeRun cfg block.addr needed).2 =
        block.addr + 16 := rfl
    dsimp only
    rw [pointer]
    generalize s.allocateFromFreeRun cfg block.addr needed = carved at *
    have carvedStep := ok.heapStep step outer
      (ok.stack_kept step.toEffect (State.remoteHead_of_outer outer)
        fun run runMember _ => runMember)
      fun p inParked => by
        obtain ⟨run, runMember, same⟩ := ok.parkedRuns p inParked
        exact ⟨run, Or.inr runMember, same⟩
    refine .run nonnull (show bytes + 16 ≤ granted by omega)
      (fun run runMember same => ?_) ?_
    · have equal := heap.layout.eq_of_addr_eq runMember.1 member.1 same
      rw [equal] at runMember
      exact absurd (runMember.2.symm.trans member.2) (by decide)
    · have recorded := carvedStep.ok.same (t := carved.1.record cfg fun stats =>
        { stats with
          allocateSuccess := wrapAdd stats.allocateSuccess 1
          grantedBytes := wrapAdd stats.grantedBytes (wrapSub (carved.1.runSize
            (headerFromPayload (block.addr + 16))) headerBytes) })
        (by simp) (by simp) (by simp) (by simp)
      exact ⟨(carvedStep.toEffect.trans recorded.toEffect).mono
        fun _ inside => ⟨inside, Or.inr inside⟩, recorded.ok⟩

theorem resumeAllocate_outcome {os : Os} {bytes : Nat}
    {found : State × Nat × Nat} (ok : RunnerOk cfg found.1 runs parked)
    (candidate : Candidate cfg found.1 runs needed found.2.1)
    (normalized : Normalized needed) (covers : bytes + 16 ≤ needed) :
    Outcome cfg found.1 (State.resumeAllocate cfg os needed found).1 runs parked
      bytes (State.resumeAllocate cfg os needed found).2 := by
  obtain ⟨deferred, deferredCandidate⟩ :=
    findOrDefer_step ok candidate normalized
  unfold State.resumeAllocate
  generalize State.findOrDefer cfg os needed found = stage at *
  obtain ⟨u, outcome⟩ := stage
  cases outcome with
  | error exn => exact .throws deferred
  | ok pair =>
      obtain ⟨h, count⟩ := pair
      dsimp only at deferred deferredCandidate ⊢
      obtain ⟨grown, grownCandidate⟩ := findOrGrow_step deferred.ok (deferredCandidate h count rfl)
        normalized
      refine Outcome.after deferred ?_
      generalize u.findOrGrow cfg os needed h count = stage at *
      obtain ⟨v, outcome⟩ := stage
      cases outcome with
      | error exn => exact .throws grown
      | ok h' =>
          dsimp only at grown grownCandidate ⊢
          exact Outcome.after grown (finishAllocate_outcome grown.ok
            (grownCandidate h' rfl) normalized covers)

/-- Every call of `allocate_bytes` leads to a legal runner; only a drain takes
runs away. -/
theorem allocateBytes_outcome {os : Os} {bytes alignment : Nat}
    (ok : RunnerOk cfg s runs parked) (word : bytes < 2 ^ 64) :
    ∃ drained, Outcome cfg s (s.allocateBytes cfg os bytes alignment).1
      (survivors drained runs parked) (afterDrain drained parked) bytes
      (s.allocateBytes cfg os bytes alignment).2 := by
  unfold State.allocateBytes
  by_cases overAligned : alignment > runAlignment
  · rw [if_pos overAligned]
    exact ⟨false, .null (ok.same rfl rfl rfl rfl)⟩
  rw [if_neg overAligned]
  dsimp only
  generalize requestEq : (if bytes = 0 then 1 else bytes) = request
  have requestBound : request < 2 ^ 64 ∧ bytes ≤ request := by
    rw [← requestEq]
    split <;> omega
  have recorded := ok.same (t := s.record cfg fun stats =>
    { stats with
      allocateCalls := wrapAdd stats.allocateCalls 1
      requestedBytes := wrapAdd stats.requestedBytes request })
    (by simp) (by simp) (by simp) (by simp)
  generalize s.record cfg (fun stats =>
    { stats with
      allocateCalls := wrapAdd stats.allocateCalls 1
      requestedBytes := wrapAdd stats.requestedBytes request }) = u at *
  cases sized : normalizedRunBytesForPayload request with
  | none =>
      have failed := recorded.ok.same (t := u.record cfg fun stats =>
        { stats with allocateFail := wrapAdd stats.allocateFail 1 })
        (by simp) (by simp) (by simp) (by simp)
      exact ⟨false, .null (recorded.trans failed subset_rfl)⟩
  | some needed =>
      obtain ⟨aligned, large, covers, needBound⟩ :=
        normalizedRunBytesForPayload_spec requestBound.1 sized
      have normalized : Normalized needed := ⟨aligned, large, needBound⟩
      dsimp only
      obtain ⟨drained, searched, candidate, _⟩ :=
        findOrDrain_step recorded.ok normalized
      have reached : RunnerStep cfg s (u.findOrDrain cfg needed).1
          (survivors drained runs parked) (survivors drained runs parked)
          (afterDrain drained parked) :=
        recorded.trans searched survivors_subset
      exact ⟨drained, Outcome.after reached (resumeAllocate_outcome searched.ok
        candidate normalized (by omega))⟩

end Runner

end Allocazam
