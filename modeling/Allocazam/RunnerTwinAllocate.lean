import Allocazam.RunnerPasses
import Allocazam.RunnerTwinSteps

/-!
# Allocation by twins

Further chunks of twins have the same lengths, so that the searches, the growth and
the carving of their allocations go the same way.
-/

namespace Allocazam

namespace Runner

variable {cfg cfg' : Config} {s t u v : State} {os os' : Os} {blocks : List Block}
  {parked parked' : List Nat} {base base' length needed h h' count count' : Nat}

/-- The same template arguments, statistics aside, and the same page size. -/
structure SameTemplate (cfg cfg' : Config) : Prop where
  canGrow : cfg'.canGrow = cfg.canGrow
  huge : cfg'.huge = cfg.huge
  pageSize : cfg'.pageSize = cfg.pageSize

theorem SameTemplate.ownedChunkBytesFor (same : SameTemplate cfg cfg') (bytes : Nat) :
    State.ownedChunkBytesFor cfg' bytes = State.ownedChunkBytesFor cfg bytes := by
  unfold State.ownedChunkBytesFor State.ownedChunkGranularity
  rw [same.huge, same.pageSize]

inductive ResultAlike (chunks chunks' : List ChunkNode) :
    Except Exn Nat → Except Exn Nat → Prop
  | pointers {p p' : Nat} (alike : PointerAlike chunks chunks' p p') :
      ResultAlike chunks chunks' (.ok p) (.ok p')
  | throws (exn : Exn) : ResultAlike chunks chunks' (.error exn) (.error exn)

theorem unrefused_of_error {α β : Type} {exn : Exn}
    (granted : (.error exn : Except Exn β) ≠ .error .refused) :
    (.error exn : Except Exn α) ≠ .error .refused := fun refused =>
  granted (congrArg Except.error (Except.error.inj refused))

/-- A new chunk as an addition to the layout and to the bins. -/
theorem withChunk_layout {chunk : ChunkNode} (heap : HeapOk cfg s blocks)
    (fresh : Fresh s.chunks chunk) :
    HeapOk cfg (s.withChunk chunk) (chunk.wholeRun :: chunk.epilogue :: blocks) ∧
      ∀ idx < 536, (s.withChunk chunk).binRuns idx =
        newlyBinned [chunk.wholeRun] idx ++ s.binRuns idx := by
  obtain ⟨binned, index⟩ := heap.indexed
  obtain ⟨after, indexed, _⟩ := initializeFreeRun_indexed heap index fresh
  refine ⟨after, fun idx bound => ?_⟩
  rw [heap.binRuns_eq index bound]
  refine (after.binRuns_eq indexed bound).trans ?_
  exact update_eq_newlyBinned

section FirstChunk

variable {chunks chunks' : List ChunkNode} {chunk chunk' : ChunkNode}

theorem alike_first {offset : Nat} (inside : offset < chunk.bytes) :
    Alike (chunk :: chunks) (chunk' :: chunks') (chunk.first + offset)
      (chunk'.first + offset) :=
  ⟨(chunk, chunk'), List.mem_cons_self, offset, inside, rfl, rfl⟩

theorem wholeRun_alike (positive : 0 < chunk.bytes) (same : chunk'.bytes = chunk.bytes) :
    BlockAlike (chunk :: chunks) (chunk' :: chunks') chunk.wholeRun chunk'.wholeRun :=
  ⟨alike_first positive, congrArg (fun bytes => bytes - 16) same, rfl⟩

theorem epilogue_alike (large : 16 ≤ chunk.bytes) (same : chunk'.bytes = chunk.bytes) :
    BlockAlike (chunk :: chunks) (chunk' :: chunks') chunk.epilogue chunk'.epilogue := by
  refine ⟨?_, rfl, rfl⟩
  have place := @alike_first chunks chunks' chunk chunk' (chunk.bytes - 16) (by omega)
  unfold ChunkNode.epilogue
  dsimp only
  rw [same]
  exact place

end FirstChunk

theorem newlyBinned_alike {chunks chunks' : List ChunkNode} {new new' : List Block}
    (alike : List.Forall₂ (BlockAlike chunks chunks') new new') (idx : Nat) :
    List.Forall₂ (Alike chunks chunks') (newlyBinned new idx) (newlyBinned new' idx) := by
  refine List.rel_map (fun run run' (same : BlockAlike chunks chunks' run run') =>
    same.addr) ?_
  refine List.rel_filter (fun run run' same => ?_) alike
  dsimp only
  rw [same.isFree, same.size]

namespace Mirrors

theorem withChunk (mirrors : Mirrors cfg cfg' s t) {chunk chunk' : ChunkNode}
    (fresh : Fresh s.chunks chunk) (fresh' : Fresh t.chunks chunk')
    (bytes : chunk'.bytes = chunk.bytes)
    (mapping : chunk'.mappingBytes = chunk.mappingBytes) :
    Mirrors cfg cfg' (s.withChunk chunk) (t.withChunk chunk') := by
  have large := fresh.large
  obtain ⟨blocks, blocks', heap, heap', alike⟩ := mirrors.layouts
  obtain ⟨after, bins⟩ := withChunk_layout heap fresh
  obtain ⟨after', bins'⟩ := withChunk_layout heap' fresh'
  have outer := @withChunk_outer s chunk
  have outer' := @withChunk_outer t chunk'
  have chunks : (s.withChunk chunk).chunks = chunk :: s.chunks :=
    congrArg (fun members => members.1) outer
  have chunks' : (t.withChunk chunk').chunks = chunk' :: t.chunks :=
    congrArg (fun members => members.1) outer'
  have growth : (s.withChunk chunk).nextGrowth = s.nextGrowth :=
    congrArg (fun members => members.2.1) outer
  have growth' : (t.withChunk chunk').nextGrowth = t.nextGrowth :=
    congrArg (fun members => members.2.1) outer'
  have deferred : (s.withChunk chunk).deferredBytes = s.deferredBytes :=
    congrArg (fun members => members.2.2.1) outer
  have deferred' : (t.withChunk chunk').deferredBytes = t.deferredBytes :=
    congrArg (fun members => members.2.2.1) outer'
  refine ⟨?_, ⟨_, _, after, after', ?_⟩, fun idx bound => ?_, ?_, ?_⟩
  · rw [chunks, chunks']
    exact .cons ⟨bytes, mapping⟩ mirrors.chunks
  · rw [chunks, chunks']
    exact .cons (wholeRun_alike (by omega) bytes) (.cons (epilogue_alike (by omega) bytes)
      (alike.imp fun _ _ same => same.cons _ _))
  · rw [chunks, chunks', bins idx bound, bins' idx bound]
    exact List.rel_append
      (newlyBinned_alike (.cons (wholeRun_alike (by omega) bytes) .nil) idx)
      ((mirrors.bins idx bound).imp fun _ _ same => same.cons _ _)
  · rw [growth, growth', mirrors.nextGrowth]
  · rw [deferred, deferred', mirrors.deferred]

end Mirrors

namespace Twins

variable (twins : Twins cfg cfg' s t parked parked') (same : SameTemplate cfg cfg')

include twins

theorem resize {growth : Nat} (word : growth < 2 ^ 64) :
    Twins cfg cfg' { s with nextGrowth := growth } { t with nextGrowth := growth } parked
      parked' := by
  obtain ⟨runs, ok⟩ := twins.ok
  obtain ⟨runs', ok'⟩ := twins.ok'
  exact ⟨twins.toMirrors.congr rfl rfl rfl rfl rfl rfl rfl rfl rfl twins.deferred,
    ⟨runs, (ok.resize (t := { s with nextGrowth := growth }) rfl rfl rfl rfl rfl word
      ok.deferred).ok⟩,
    ⟨runs', (ok'.resize (t := { t with nextGrowth := growth }) rfl rfl rfl rfl rfl word
      ok'.deferred).ok⟩,
    twins.parkedAlike⟩

theorem settle {growth : Nat} (word : growth < 2 ^ 64) :
    Twins cfg cfg' { s with nextGrowth := growth, deferredBytes := 0 }
      { t with nextGrowth := growth, deferredBytes := 0 } parked parked' := by
  obtain ⟨runs, ok⟩ := twins.ok
  obtain ⟨runs', ok'⟩ := twins.ok'
  exact ⟨twins.toMirrors.congr rfl rfl rfl rfl rfl rfl rfl rfl rfl rfl,
    ⟨runs, (ok.resize (t := { s with nextGrowth := growth, deferredBytes := 0 }) rfl rfl rfl
      rfl rfl word (show 0 < 2 ^ 64 by decide)).ok⟩,
    ⟨runs', (ok'.resize (t := { t with nextGrowth := growth, deferredBytes := 0 }) rfl rfl
      rfl rfl rfl word (show 0 < 2 ^ 64 by decide)).ok⟩,
    twins.parkedAlike⟩

include same

/-- Both sides acquire a chunk, of one length, unless no length is large enough. -/
theorem addOwnedChunk {bytes : Nat} (word : bytes < 2 ^ 64)
    (granted : (s.addOwnedChunk cfg os bytes).2 ≠ .error .refused)
    (granted' : (t.addOwnedChunk cfg' os' bytes).2 ≠ .error .refused) :
    (t.addOwnedChunk cfg' os' bytes).2 = (s.addOwnedChunk cfg os bytes).2 ∧
      Twins cfg cfg' (s.addOwnedChunk cfg os bytes).1 (t.addOwnedChunk cfg' os' bytes).1
        parked parked' := by
  obtain ⟨runs, ok⟩ := twins.ok
  obtain ⟨runs', ok'⟩ := twins.ok'
  have step : RunnerOk cfg (s.addOwnedChunk cfg os bytes).1 runs parked :=
    (addOwnedChunk_step ok word).1.ok
  have step' : RunnerOk cfg' (t.addOwnedChunk cfg' os' bytes).1 runs' parked' :=
    (addOwnedChunk_step ok' word).1.ok
  have ends := addOwnedChunk_added cfg s os bytes
  have ends' := addOwnedChunk_added cfg' t os' bytes
  generalize s.addOwnedChunk cfg os bytes = outcome at granted step ends ⊢
  generalize t.addOwnedChunk cfg' os' bytes = outcome' at granted' step' ends' ⊢
  cases ends with
  | overflow sized =>
      cases ends' with
      | overflow => exact ⟨rfl, twins⟩
      | refused => exact absurd rfl granted'
      | added sized' =>
          rw [same.ownedChunkBytesFor, sized] at sized'
          cases sized'
  | refused => exact absurd rfl granted
  | @added length base sized grants =>
      cases ends' with
      | overflow sized' =>
          rw [same.ownedChunkBytesFor, sized] at sized'
          cases sized'
      | refused => exact absurd rfl granted'
      | @added length' base' sized' grants' =>
          have fresh' := ownedChunk_fresh word sized' grants'
          rw [same.ownedChunkBytesFor, sized] at sized'
          obtain rfl := Except.ok.inj sized'
          have mirrors := twins.toMirrors.withChunk (ownedChunk_fresh word sized grants)
            fresh' rfl rfl
          refine ⟨rfl, mirrors, ⟨runs, step⟩, ⟨runs', step'⟩, ?_⟩
          have chunks : (s.withChunk (ownedChunk base length)).chunks =
              ownedChunk base length :: s.chunks :=
            congrArg (fun members => members.1) (withChunk_outer _)
          have chunks' : (t.withChunk (ownedChunk base' length)).chunks =
              ownedChunk base' length :: t.chunks :=
            congrArg (fun members => members.1) (withChunk_outer _)
          rw [chunks, chunks']
          exact twins.parkedAlike.imp fun _ _ alike => alike.cons _ _

theorem growFor (granted : (s.growFor cfg os needed).2 ≠ .error .refused)
    (granted' : (t.growFor cfg' os' needed).2 ≠ .error .refused) :
    (t.growFor cfg' os' needed).2 = (s.growFor cfg os needed).2 ∧
      Twins cfg cfg' (s.growFor cfg os needed).1 (t.growFor cfg' os' needed).1 parked
        parked' := by
  unfold State.growFor at granted granted' ⊢
  dsimp only at granted granted' ⊢
  have recorded := twins.record
    (fun stats => { stats with growCalls := wrapAdd stats.growCalls 1 })
    (fun stats => { stats with growCalls := wrapAdd stats.growCalls 1 })
  generalize s.record cfg (fun stats =>
    { stats with growCalls := wrapAdd stats.growCalls 1 }) = u
      at granted recorded ⊢
  generalize t.record cfg' (fun stats =>
    { stats with growCalls := wrapAdd stats.growCalls 1 }) = v
      at granted' recorded ⊢
  cases summed : checkedAdd needed minChunkBytes with
  | none => exact ⟨rfl, recorded⟩
  | some overhead =>
      have bounded := (checkedAdd_eq_some (by decide)).mp summed
      rw [summed] at granted granted'
      dsimp only at granted granted' ⊢
      rw [recorded.nextGrowth] at granted' ⊢
      obtain ⟨runs, ok⟩ := recorded.ok
      have word : max u.nextGrowth overhead < 2 ^ 64 := by
        have := ok.growth
        omega
      have bound : ∀ chunkBytes, (u.addOwnedChunk cfg os
          (max u.nextGrowth overhead)).2 = .ok chunkBytes → chunkBytes < 2 ^ 64 :=
        (addOwnedChunk_step ok word).2
      have added := fun granted granted' =>
        @addOwnedChunk cfg cfg' u v os os' _ _ recorded same _ word granted granted'
      generalize u.addOwnedChunk cfg os (max u.nextGrowth overhead) = outcome
        at granted bound added ⊢
      generalize v.addOwnedChunk cfg' os' (max u.nextGrowth overhead) = outcome'
        at granted' added ⊢
      obtain ⟨u, exn | chunkBytes⟩ := outcome <;>
        obtain ⟨v, exn' | chunkBytes'⟩ := outcome'
      · obtain ⟨result, twins⟩ := added (unrefused_of_error granted)
          (unrefused_of_error granted')
        exact ⟨congrArg Except.error (Except.error.inj result), twins⟩
      · cases (added (unrefused_of_error granted) (by simp)).1
      · cases (added (by simp) (unrefused_of_error granted')).1
      · obtain ⟨result, twins⟩ := added (by simp) (by simp)
        obtain rfl := Except.ok.inj result
        have chunkBound := bound _ rfl
        refine ⟨rfl, twins.resize ?_⟩
        cases product : checkedMul chunkBytes' 2 with
        | none => simpa using chunkBound
        | some value =>
            have := checkedMul_eq_some.mp product
            simp only [Option.getD_some]
            omega

end Twins

theorem Mirrors.allocateFromFreeRun (mirrors : Mirrors cfg cfg' s t)
    (normalized : Normalized needed) {size : Nat} (free : s.FreeRun h size)
    (alike : Alike s.chunks t.chunks h h') (fits : needed ≤ size) :
    Alike s.chunks t.chunks (s.allocateFromFreeRun cfg h needed).2
        (t.allocateFromFreeRun cfg' h' needed).2 ∧
      Mirrors cfg cfg' (s.allocateFromFreeRun cfg h needed).1
        (t.allocateFromFreeRun cfg' h' needed).1 := by
  have unique := mirrors.biUnique
  obtain ⟨blocks, blocks', heap, heap', matched⟩ := mirrors.layouts
  obtain ⟨member, _⟩ := heap.freeRun_iff.mp free
  obtain ⟨front, back, rfl⟩ := List.append_of_mem member
  obtain ⟨front', rest', rfl, frontAlike, restAlike⟩ := forall₂_append_left matched
  obtain ⟨run', back', runAlike, backAlike, rfl⟩ :=
    List.forall₂_cons_left_iff.mp restAlike
  obtain rfl := unique.2 runAlike.addr alike
  have sized : run'.size = size := runAlike.size
  have kind : run'.kind = .free := runAlike.kind
  have large : 48 ≤ size := (heap.layout.sizes _ member (by simp)).1
  obtain ⟨payload, exchanged⟩ := allocateFromFreeRun_exchanged heap rfl normalized fits
  obtain ⟨payload', exchanged'⟩ := allocateFromFreeRun_exchanged heap' kind normalized
    (show needed ≤ run'.size by omega)
  dsimp only at payload exchanged
  rw [payload, payload']
  refine ⟨runAlike.add heap.layout member (show 16 < size by omega),
    mirrors.exchange exchanged exchanged' frontAlike (.cons runAlike .nil) ?_ backAlike⟩
  rw [sized]
  exact carvedRuns_alike alike fun distance inside =>
    runAlike.add heap.layout member inside

theorem Outcome.exists_ok {rest : Set Block} {left : List Nat} {bytes : Nat}
    {result : Except Exn Nat} (outcome : Outcome cfg s t rest left bytes result) :
    ∃ runs, RunnerOk cfg t runs left := by
  cases outcome with
  | run _ _ _ step => exact ⟨_, step.ok⟩
  | null step => exact ⟨_, step.ok⟩
  | throws step => exact ⟨_, step.ok⟩

/-- Twins that have found alike runs for `needed` bytes, or none. -/
structure Seeks (cfg cfg' : Config) (s t : State) (needed h h' : Nat)
    (parked parked' : List Nat) : Prop where
  twins : Twins cfg cfg' s t parked parked'
  alike : PointerAlike s.chunks t.chunks h h'
  fits : h ≠ 0 → ∃ size, s.FreeRun h size ∧ needed ≤ size

theorem RunnerOk.candidate_iff {runs : Set Block} (ok : RunnerOk cfg s runs parked) :
    Candidate cfg s runs needed h ↔
      (h ≠ 0 → ∃ size, s.FreeRun h size ∧ needed ≤ size) := by
  constructor
  · rintro (null | ⟨blocks, heap, _, block, member, rfl, fits⟩) nonnull
    · exact absurd null nonnull
    · refine ⟨block.size, heap.freeRun_iff.mpr ?_, fits⟩
      rw [← member.2]
      exact member
  · intro found
    by_cases null : h = 0
    · exact Or.inl null
    · obtain ⟨size, free, fits⟩ := found null
      obtain ⟨blocks, heap, used⟩ := ok.heap
      exact Or.inr ⟨blocks, heap, used, _, heap.freeRun_iff.mp free, rfl, fits⟩

namespace Seeks

variable (seeks : Seeks cfg cfg' s t needed h h' parked parked')
  (normalized : Normalized needed)

include seeks

theorem candidate {runs : Set Block} (ok : RunnerOk cfg s runs parked) :
    Candidate cfg s runs needed h :=
  ok.candidate_iff.mpr seeks.fits

theorem candidate' {runs : Set Block} (ok : RunnerOk cfg' t runs parked') :
    Candidate cfg' t runs needed h' := by
  refine ok.candidate_iff.mpr fun nonnull => ?_
  have nonnull : h ≠ 0 := fun null =>
    nonnull ((seeks.twins.pointer_eq_zero_iff seeks.alike).mp null)
  obtain ⟨size, free, fits⟩ := seeks.fits nonnull
  exact ⟨size, seeks.twins.freeRun free (seeks.alike.alike nonnull), fits⟩

end Seeks

theorem Twins.findFit (twins : Twins cfg cfg' s t parked parked')
    (normalized : Normalized needed) :
    Seeks cfg cfg' (s.findFit cfg needed count).1 (t.findFit cfg' needed count').1 needed
      (s.findFit cfg needed count).2.1 (t.findFit cfg' needed count').2.1 parked
      parked' := by
  obtain ⟨mem, bins, mask, outer⟩ := @findFit_same cfg s needed count
  obtain ⟨mem', bins', mask', outer'⟩ := @findFit_same cfg' t needed count'
  obtain ⟨_, alike⟩ := @Mirrors.findFit _ _ _ _ needed twins.toMirrors count count'
  obtain ⟨runs, ok⟩ := twins.ok
  obtain ⟨step, candidate⟩ := @findFit_step cfg s runs parked needed count ok normalized
  refine ⟨twins.same mem mem' bins bins' mask mask' outer outer', ?_,
    step.ok.candidate_iff.mp candidate⟩
  rw [State.chunks_of_outer outer, State.chunks_of_outer outer']
  exact alike

/-- Both sides search, and once more if a drain has reclaimed something. -/
theorem Twins.findOrDrain (twins : Twins cfg cfg' s t parked parked')
    (normalized : Normalized needed) :
    ∃ left left', Seeks cfg cfg' (s.findOrDrain cfg needed).1
      (t.findOrDrain cfg' needed).1 needed (s.findOrDrain cfg needed).2.1
      (t.findOrDrain cfg' needed).2.1 left left' := by
  have searched := @Twins.findFit _ _ _ _ _ _ _ 0 0 twins normalized
  unfold State.findOrDrain
  generalize s.findFit cfg needed 0 = found at searched ⊢
  generalize t.findFit cfg' needed 0 = found' at searched ⊢
  obtain ⟨u, h, count⟩ := found
  obtain ⟨v, h', count'⟩ := found'
  dsimp only at searched ⊢
  have sameNull := searched.twins.pointer_eq_zero_iff searched.alike
  by_cases null : h = 0
  · rw [if_pos null, if_pos (sameNull.mp null)]
    obtain ⟨flag, drained⟩ := searched.twins.drainRemote
    generalize u.drainRemote cfg = outcome at flag drained ⊢
    generalize v.drainRemote cfg' = outcome' at flag drained ⊢
    obtain ⟨u, reclaimed⟩ := outcome
    obtain ⟨v, reclaimed'⟩ := outcome'
    dsimp only at flag drained
    subst flag
    cases reclaimed' with
    | true => exact ⟨[], [], drained.findFit normalized⟩
    | false =>
        exact ⟨[], [], drained, Or.inl ⟨null, sameNull.mp null⟩,
          fun nonnull => absurd null nonnull⟩
  · rw [if_neg null, if_neg fun null' => null (sameNull.mpr null')]
    exact ⟨parked, parked', searched⟩

/-- How a stage of the allocations of twins may end: with the same exception, or with
alike runs. -/
inductive Staged (cfg cfg' : Config) (needed : Nat) (parked parked' : List Nat)
    {α : Type} (run : α → Nat) : State × Except Exn α → State × Except Exn α → Prop
  | throws {u v : State} (exn : Exn) (twins : Twins cfg cfg' u v parked parked') :
      Staged cfg cfg' needed parked parked' run (u, .error exn) (v, .error exn)
  | found {u v : State} {a a' : α}
      (seeks : Seeks cfg cfg' u v needed (run a) (run a') parked parked') :
      Staged cfg cfg' needed parked parked' run (u, .ok a) (v, .ok a')

namespace Seeks

variable (seeks : Seeks cfg cfg' s t needed h h' parked parked')
  (normalized : Normalized needed)

include seeks normalized

/-- Both sides carve the run they have found, or return null. -/
theorem finishAllocate :
    Twins cfg cfg' (s.finishAllocate cfg h needed).1 (t.finishAllocate cfg' h' needed).1
        parked parked' ∧
      ResultAlike (s.finishAllocate cfg h needed).1.chunks
        (t.finishAllocate cfg' h' needed).1.chunks (s.finishAllocate cfg h needed).2
        (t.finishAllocate cfg' h' needed).2 := by
  have sameNull := seeks.twins.pointer_eq_zero_iff seeks.alike
  by_cases null : h = 0
  · unfold State.finishAllocate State.failAllocate
    rw [if_pos null, if_pos (sameNull.mp null)]
    dsimp only
    exact ⟨seeks.twins.record _ _, .pointers (Or.inl ⟨rfl, rfl⟩)⟩
  have null' : h' ≠ 0 := fun null' => null (sameNull.mpr null')
  obtain ⟨size, free, fits⟩ := seeks.fits null
  obtain ⟨alike, mirrors⟩ := seeks.twins.allocateFromFreeRun normalized free
    (seeks.alike.alike null) fits
  obtain ⟨runs, ok⟩ := seeks.twins.ok
  obtain ⟨runs', ok'⟩ := seeks.twins.ok'
  have covers : needed - 16 + 16 ≤ needed := by
    have := normalized.large
    omega
  have step := finishAllocate_outcome ok (seeks.candidate ok) normalized covers
  have step' := finishAllocate_outcome ok' (seeks.candidate' ok') normalized covers
  have parkedAlike := seeks.twins.parkedAlike
  rw [← @finishAllocate_chunks cfg s h needed, ← @finishAllocate_chunks cfg' t h' needed]
    at alike parkedAlike
  refine ⟨⟨?_, step.exists_ok, step'.exists_ok, parkedAlike⟩, ?_⟩
  all_goals
    unfold State.finishAllocate
    rw [if_neg null, if_neg null']
  · exact mirrors.same (by simp) (by simp) (by simp) (by simp) (by simp) (by simp)
      (by simp) (by simp)
  · unfold State.finishAllocate at alike
    rw [if_neg null, if_neg null'] at alike
    exact .pointers (Or.inr alike)

variable (same : SameTemplate cfg cfg')

include same

theorem findOrGrow (granted : (s.findOrGrow cfg os needed h count).2 ≠ .error .refused)
    (granted' : (t.findOrGrow cfg' os' needed h' count').2 ≠ .error .refused) :
    Staged cfg cfg' needed parked parked' id (s.findOrGrow cfg os needed h count)
      (t.findOrGrow cfg' os' needed h' count') := by
  have sameNull := seeks.twins.pointer_eq_zero_iff seeks.alike
  have sameGrowth : h = 0 ∧ cfg.canGrow = true ↔ h' = 0 ∧ cfg'.canGrow = true := by
    rw [sameNull, same.canGrow]
  unfold State.findOrGrow at granted granted' ⊢
  by_cases grow : h = 0 ∧ cfg.canGrow = true
  swap
  · rw [if_neg grow, if_neg fun grow' => grow (sameGrowth.mpr grow')]
    exact .found seeks
  rw [if_pos grow] at granted ⊢
  rw [if_pos (sameGrowth.mp grow)] at granted' ⊢
  have grown := fun granted granted' =>
    @Twins.growFor cfg cfg' s t os os' _ _ needed seeks.twins same granted granted'
  generalize s.growFor cfg os needed = outcome at granted grown ⊢
  generalize t.growFor cfg' os' needed = outcome' at granted' grown ⊢
  obtain ⟨u, exn | done⟩ := outcome <;> obtain ⟨v, exn' | done'⟩ := outcome'
  · obtain ⟨result, twins⟩ := grown (unrefused_of_error granted)
      (unrefused_of_error granted')
    obtain rfl := Except.error.inj result
    exact .throws _ twins
  · cases (grown (unrefused_of_error granted) (by simp)).1
  · cases (grown (by simp) (unrefused_of_error granted')).1
  · exact .found ((grown (by simp) (by simp)).2.findFit normalized)

theorem findOrDefer
    (granted : (State.findOrDefer cfg os needed (s, h, count)).2 ≠ .error .refused)
    (granted' : (State.findOrDefer cfg' os' needed (t, h', count')).2 ≠ .error .refused) :
    Staged cfg cfg' needed parked parked' Prod.fst
      (State.findOrDefer cfg os needed (s, h, count))
      (State.findOrDefer cfg' os' needed (t, h', count')) := by
  have sameNull := seeks.twins.pointer_eq_zero_iff seeks.alike
  have deferred := seeks.twins.deferred
  have sameDefer : h = 0 ∧ s.deferredBytes ≠ 0 ↔ h' = 0 ∧ t.deferredBytes ≠ 0 := by
    rw [sameNull, deferred]
  unfold State.findOrDefer at granted granted' ⊢
  dsimp only at granted granted' ⊢
  by_cases defer : h = 0 ∧ s.deferredBytes ≠ 0
  swap
  · rw [if_neg defer, if_neg fun defer' => defer (sameDefer.mpr defer')]
    exact .found seeks
  rw [if_pos defer] at granted ⊢
  rw [if_pos (sameDefer.mp defer)] at granted' ⊢
  rw [deferred] at granted' ⊢
  obtain ⟨runs, ok⟩ := seeks.twins.ok
  have bound : ∀ chunkBytes, (s.addOwnedChunk cfg os s.deferredBytes).2 = .ok chunkBytes →
      chunkBytes < 2 ^ 64 := (addOwnedChunk_step ok ok.deferred).2
  have added := fun granted granted' =>
    @Twins.addOwnedChunk cfg cfg' s t os os' _ _ seeks.twins same _ ok.deferred granted
      granted'
  generalize s.addOwnedChunk cfg os s.deferredBytes = outcome at granted bound added ⊢
  generalize t.addOwnedChunk cfg' os' s.deferredBytes = outcome' at granted' added ⊢
  obtain ⟨u, exn | chunkBytes⟩ := outcome <;> obtain ⟨v, exn' | chunkBytes'⟩ := outcome'
  · obtain ⟨result, twins⟩ := added (unrefused_of_error granted)
      (unrefused_of_error granted')
    obtain rfl := Except.error.inj result
    exact .throws _ twins
  · cases (added (unrefused_of_error granted) (by simp)).1
  · cases (added (by simp) (unrefused_of_error granted')).1
  · obtain ⟨result, twins⟩ := added (by simp) (by simp)
    obtain rfl := Except.ok.inj result
    exact .found ((twins.settle (bound _ rfl)).findFit normalized)

/-- The rest of the allocations once the remote stacks have been dealt with. -/
theorem resumeAllocate
    (granted : (State.resumeAllocate cfg os needed (s, h, count)).2 ≠ .error .refused)
    (granted' : (State.resumeAllocate cfg' os' needed (t, h', count')).2 ≠
      .error .refused) :
    Twins cfg cfg' (State.resumeAllocate cfg os needed (s, h, count)).1
        (State.resumeAllocate cfg' os' needed (t, h', count')).1 parked parked' ∧
      ResultAlike (State.resumeAllocate cfg os needed (s, h, count)).1.chunks
        (State.resumeAllocate cfg' os' needed (t, h', count')).1.chunks
        (State.resumeAllocate cfg os needed (s, h, count)).2
        (State.resumeAllocate cfg' os' needed (t, h', count')).2 := by
  unfold State.resumeAllocate at granted granted' ⊢
  have deferred := fun granted granted' =>
    @findOrDefer cfg cfg' s t os os' _ _ needed h h' count count' seeks normalized same
      granted granted'
  generalize State.findOrDefer cfg os needed (s, h, count) = outcome
    at granted deferred ⊢
  generalize State.findOrDefer cfg' os' needed (t, h', count') = outcome'
    at granted' deferred ⊢
  have unrefused : outcome.2 ≠ .error .refused := by
    obtain ⟨u, exn | found⟩ := outcome
    · exact unrefused_of_error granted
    · simp
  have unrefused' : outcome'.2 ≠ .error .refused := by
    obtain ⟨v, exn | found⟩ := outcome'
    · exact unrefused_of_error granted'
    · simp
  cases deferred unrefused unrefused' with
  | throws exn twins => exact ⟨twins, .throws exn⟩
  | @found u v found found' seeks =>
      obtain ⟨h, count⟩ := found
      obtain ⟨h', count'⟩ := found'
      dsimp only at granted granted' seeks ⊢
      have grown := fun granted granted' =>
        @findOrGrow cfg cfg' u v os os' _ _ needed h h' count count' seeks normalized same
          granted granted'
      generalize u.findOrGrow cfg os needed h count = outcome at granted grown ⊢
      generalize v.findOrGrow cfg' os' needed h' count' = outcome' at granted' grown ⊢
      have unrefused : outcome.2 ≠ .error .refused := by
        obtain ⟨u, exn | g⟩ := outcome
        · exact granted
        · simp
      have unrefused' : outcome'.2 ≠ .error .refused := by
        obtain ⟨v, exn | g⟩ := outcome'
        · exact granted'
        · simp
      cases grown unrefused unrefused' with
      | throws exn twins => exact ⟨twins, .throws exn⟩
      | found seeks => exact seeks.finishAllocate normalized

end Seeks

/-- The sizes of the requests that `allocate_bytes` searches a run for. -/
def Searches (bytes alignment needed : Nat) : Prop :=
  alignment ≤ runAlignment ∧
    normalizedRunBytesForPayload (if bytes = 0 then 1 else bytes) = some needed

theorem Searches.normalized {bytes alignment : Nat} (word : bytes < 2 ^ 64)
    (searches : Searches bytes alignment needed) : Normalized needed := by
  have request : (if bytes = 0 then 1 else bytes) < 2 ^ 64 := by
    split <;> omega
  obtain ⟨aligned, large, _, bound⟩ :=
    normalizedRunBytesForPayload_spec request searches.2
  exact ⟨aligned, large, bound⟩

def State.requested (cfg : Config) (s : State) (bytes : Nat) : State :=
  s.record cfg fun stats =>
    { stats with
      allocateCalls := wrapAdd stats.allocateCalls 1
      requestedBytes := wrapAdd stats.requestedBytes (if bytes = 0 then 1 else bytes) }

/-- A request without a size that is searched for returns null and changes nothing but
statistics. -/
theorem allocateBytes_unsearched {bytes alignment : Nat}
    (unsearched : ∀ needed, ¬ Searches bytes alignment needed) :
    ∃ update, s.allocateBytes cfg os bytes alignment = (s.record cfg update, .ok 0) := by
  unfold State.allocateBytes
  by_cases misaligned : alignment > runAlignment
  · refine ⟨id, ?_⟩
    rw [if_pos misaligned]
    unfold State.record
    split <;> rfl
  rw [if_neg misaligned]
  cases sized : normalizedRunBytesForPayload (if bytes = 0 then 1 else bytes) with
  | some needed => exact absurd ⟨not_lt.mp misaligned, sized⟩ (unsearched needed)
  | none =>
      refine ⟨fun stats =>
        { stats with
          allocateCalls := wrapAdd stats.allocateCalls 1
          requestedBytes := wrapAdd stats.requestedBytes (if bytes = 0 then 1 else bytes)
          allocateFail := wrapAdd stats.allocateFail 1 }, ?_⟩
      dsimp only
      unfold State.failAllocate State.record
      cases cfg.collectStats <;> rfl

theorem allocateBytes_searched {bytes alignment : Nat}
    (searches : Searches bytes alignment needed) :
    s.allocateBytes cfg os bytes alignment =
      State.resumeAllocate cfg os needed ((s.requested cfg bytes).findOrDrain cfg needed) := by
  unfold State.allocateBytes State.requested
  rw [if_neg (by have := searches.1; omega)]
  dsimp only
  rw [searches.2]

theorem Twins.allocateBytes (twins : Twins cfg cfg' s t parked parked')
    (same : SameTemplate cfg cfg') {bytes alignment : Nat} (word : bytes < 2 ^ 64)
    (granted : (s.allocateBytes cfg os bytes alignment).2 ≠ .error .refused)
    (granted' : (t.allocateBytes cfg' os' bytes alignment).2 ≠ .error .refused) :
    (∃ left left', Twins cfg cfg' (s.allocateBytes cfg os bytes alignment).1
        (t.allocateBytes cfg' os' bytes alignment).1 left left') ∧
      ResultAlike (s.allocateBytes cfg os bytes alignment).1.chunks
        (t.allocateBytes cfg' os' bytes alignment).1.chunks
        (s.allocateBytes cfg os bytes alignment).2
        (t.allocateBytes cfg' os' bytes alignment).2 := by
  by_cases searched : ∃ needed, Searches bytes alignment needed
  · obtain ⟨needed, searches⟩ := searched
    have normalized := searches.normalized word
    rw [allocateBytes_searched searches] at granted granted' ⊢
    rw [allocateBytes_searched searches]
    obtain ⟨left, left', seeks⟩ := (twins.record _ _).findOrDrain normalized
    obtain ⟨after, alike⟩ := seeks.resumeAllocate normalized same granted granted'
    exact ⟨⟨left, left', after⟩, alike⟩
  · have unsearched := not_exists.mp searched
    obtain ⟨update, result⟩ := @allocateBytes_unsearched cfg s os _ _ unsearched
    obtain ⟨update', result'⟩ := @allocateBytes_unsearched cfg' t os' _ _ unsearched
    rw [result, result']
    exact ⟨⟨_, _, twins.record _ _⟩, .pointers (Or.inl ⟨rfl, rfl⟩)⟩

end Runner

end Allocazam
