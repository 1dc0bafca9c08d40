import Allocazam.RunnerRoom
import Allocazam.RunnerStatistics

/-!
# The exits of `allocate_bytes`

A request that is aligned and has a run size goes through at most three
reclaiming stages: the drain, the deferred first chunk and growth.  Where the
call leaves, and with which state, depends on the free runs after each stage.
-/

namespace Allocazam

namespace Runner

variable {cfg : Config} {s t u : State} {os : Os} {blocks : List Block}
  {runs : Set Block} {parked : List Nat} {needed : Nat}

/-- A run of the given address and size is marked free. -/
def State.FreeRun (s : State) (addr size : Nat) : Prop :=
  ∃ chunk ∈ s.chunks, (⟨addr, size, .free⟩ : Block) ∈ s.runsIn chunk

def State.NoFit (s : State) (needed : Nat) : Prop :=
  ∀ addr size, s.FreeRun addr size → size < needed

def State.addDeferred (cfg : Config) (s : State) (os : Os) :
    State × Except Exn Unit :=
  if s.deferredBytes = 0 then (s, .ok ())
  else
    match s.addOwnedChunk cfg os s.deferredBytes with
    | (s, .error exn) => (s, .error exn)
    | (s, .ok chunkBytes) =>
        ({ s with nextGrowth := chunkBytes, deferredBytes := 0 }, .ok ())

/-- The remote stack is drained and the deferred first chunk added. -/
def State.reclaim (cfg : Config) (s : State) (os : Os) :
    State × Except Exn Unit :=
  (s.drainRemote cfg).1.addDeferred cfg os

/-- How a call that is neither over-aligned nor too large leaves. -/
inductive Exit (cfg : Config) (s : State) (os : Os) (needed : Nat) :
    State × Except Exn Nat → Prop
  | drained {t : State} {p : Nat}
      (fits : ¬ (s.drainRemote cfg).1.NoFit needed) (nonnull : p ≠ 0) :
      Exit cfg s os needed (t, .ok p)
  | refused {r t : State} {exn : Exn}
      (full : (s.drainRemote cfg).1.NoFit needed)
      (fails : s.reclaim cfg os = (r, .error exn))
      (same : t.unmeasured = r.unmeasured) :
      Exit cfg s os needed (t, .error exn)
  | first {r t : State} {p : Nat}
      (full : (s.drainRemote cfg).1.NoFit needed)
      (reclaims : s.reclaim cfg os = (r, .ok ())) (fits : ¬ r.NoFit needed)
      (nonnull : p ≠ 0) : Exit cfg s os needed (t, .ok p)
  | exhausted {r t : State}
      (full : (s.drainRemote cfg).1.NoFit needed)
      (reclaims : s.reclaim cfg os = (r, .ok ())) (still : r.NoFit needed)
      (fixed : cfg.canGrow = false) (same : t.unmeasured = r.unmeasured) :
      Exit cfg s os needed (t, .ok 0)
  | ungrown {r t : State} {exn : Exn}
      (full : (s.drainRemote cfg).1.NoFit needed)
      (reclaims : s.reclaim cfg os = (r, .ok ())) (still : r.NoFit needed)
      (growable : cfg.canGrow = true)
      (fails : (r.growFor cfg os needed).2 = .error exn)
      (same : t.unmeasured = r.unmeasured) :
      Exit cfg s os needed (t, .error exn)
  | grown {r t : State} {p : Nat}
      (full : (s.drainRemote cfg).1.NoFit needed)
      (reclaims : s.reclaim cfg os = (r, .ok ())) (still : r.NoFit needed)
      (growable : cfg.canGrow = true)
      (grows : (r.growFor cfg os needed).2 = .ok ()) (nonnull : p ≠ 0) :
      Exit cfg s os needed (t, .ok p)

theorem runsIn_of_mem (same : t.mem = s.mem) (chunk : ChunkNode) :
    t.runsIn chunk = s.runsIn chunk := by
  have walks : ∀ fuel addr, t.runsFrom fuel addr = s.runsFrom fuel addr := by
    intro fuel
    induction fuel with
    | zero => exact fun _ => rfl
    | succ fuel ih =>
        intro addr
        unfold State.runsFrom State.runSize State.isFree
        rw [same, ih]
  exact walks _ _

theorem State.FreeRun.congr {addr size : Nat} (free : s.FreeRun addr size)
    (chunks : t.chunks = s.chunks) (mem : t.mem = s.mem) :
    t.FreeRun addr size := by
  obtain ⟨chunk, member, inChunk⟩ := free
  refine ⟨chunk, by rw [chunks]; exact member, ?_⟩
  rw [runsIn_of_mem mem]
  exact inChunk

theorem HeapOk.freeRun_iff (heap : HeapOk cfg s blocks) {addr size : Nat} :
    s.FreeRun addr size ↔
      (⟨addr, size, .free⟩ : Block) ∈ freeRuns blocks := by
  unfold State.FreeRun
  rw [mem_freeRuns, ← heap.mem_iff (by simp)]
  simp

theorem HeapOk.noFit_iff (heap : HeapOk cfg s blocks) :
    s.NoFit needed ↔ ∀ block ∈ freeRuns blocks, block.size < needed := by
  constructor
  · intro none block member
    apply none block.addr block.size
    rw [heap.freeRun_iff, ← member.2]
    exact member
  · intro none addr size free
    exact none _ (heap.freeRun_iff.mp free)

/-- A search fails exactly when no free run is large enough. -/
theorem HeapOk.findFit_eq_zero (heap : HeapOk cfg s blocks)
    (normalized : Normalized needed) (scanCount : Nat) :
    (s.findFit cfg needed scanCount).2.1 = 0 ↔ s.NoFit needed := by
  rw [heap.noFit_iff]
  constructor
  · intro null block member
    by_contra fits
    exact findFit_complete heap member (Nat.le_of_not_lt fits)
      normalized.aligned null
  · intro none
    have sound : Fits (freeRuns blocks) needed (s.findFit cfg needed scanCount).2.1 :=
      findFit_sound heap normalized.aligned normalized.word
    rcases sound with null | ⟨block, member, _, fits⟩
    · exact null
    · exact absurd (none block member) (Nat.not_lt.mpr fits)

theorem RunnerOk.of_unmeasured (ok : RunnerOk cfg s runs parked)
    (same : t.unmeasured = s.unmeasured) : RunnerOk cfg t runs parked := by
  obtain ⟨bins, mask, outer, mem⟩ := unmeasured_eq_iff.mp same
  exact (ok.same mem bins mask outer).ok

theorem RunnerOk.findFit_eq_zero (ok : RunnerOk cfg s runs parked)
    (normalized : Normalized needed) (scanCount : Nat) :
    (s.findFit cfg needed scanCount).2.1 = 0 ↔ s.NoFit needed := by
  obtain ⟨blocks, heap, _⟩ := ok.heap
  exact heap.findFit_eq_zero normalized scanCount

theorem RunnerOk.noFit_congr (ok : RunnerOk cfg s runs parked)
    (same : t.unmeasured = s.unmeasured) : t.NoFit needed ↔ s.NoFit needed := by
  obtain ⟨bins, mask, outer, mem⟩ := unmeasured_eq_iff.mp same
  obtain ⟨blocks, heap, _⟩ := ok.heap
  have heap' := heap.congr (State.chunks_of_outer outer) mem bins mask
  rw [heap.noFit_iff, heap'.noFit_iff]

/-- A runner with room for a request has a free run for it. -/
theorem RunnerOk.noFit_iff (ok : RunnerOk cfg s runs parked)
    (large : 16 ≤ needed) : s.NoFit needed ↔ ¬ s.HasRoom ∅ (needed - 16) := by
  constructor
  · intro none room
    obtain ⟨blocks, heap, block, free, fits⟩ := ok.exists_free room
    have small := heap.noFit_iff.mp none block free
    omega
  · obtain ⟨blocks, heap, rfl⟩ := ok.heap
    intro noRoom
    apply heap.noFit_iff.mpr
    intro block free
    by_contra fits
    obtain ⟨chunk, member, lower, _, upper⟩ := heap.layout.mem_chunk free.1
    have stop := upper (by rw [free.2]; decide)
    have stopEq : block.stop = block.addr + block.size := rfl
    refine noRoom ⟨chunk, member, block.addr, lower, by omega,
      fun addr size marked _ => ?_⟩
    have used := heap.allocated_iff.mp marked
    have apart := heap.layout.apart used.1 free.1 fun same => by
      have kinds := used.2.symm.trans ((congrArg Block.kind same).trans free.2)
      cases kinds
    unfold Block.Apart Block.stop at apart
    dsimp only at apart
    omega

/-- Free runs only grow while no run is allocated. -/
theorem RunnerOk.noFit_of_shrinks {runs' : Set Block} {parked' : List Nat}
    (ok : RunnerOk cfg s runs parked) (after : RunnerOk cfg t runs' parked')
    (shrinks : s.Shrinks t) (large : 16 ≤ needed) (none : t.NoFit needed) :
    s.NoFit needed := by
  rw [ok.noFit_iff large]
  intro room
  exact (after.noFit_iff large).mp none (room.released shrinks (by simp))

theorem addDeferred_unmeasured :
    (s.addDeferred cfg os).map State.unmeasured id =
      s.unmeasured.addDeferred cfg.silent os := by
  unfold State.addDeferred
  rw [unmeasured_deferredBytes, ← addOwnedChunk_unmeasured]
  by_cases none : s.deferredBytes = 0
  · rw [if_pos none, if_pos none]
    rfl
  · rw [if_neg none, if_neg none]
    generalize s.addOwnedChunk cfg os s.deferredBytes = added
    obtain ⟨u, exn | chunkBytes⟩ := added <;> rfl

theorem addDeferred_step (os : Os) (ok : RunnerOk cfg s runs parked) :
    RunnerStep cfg s (s.addDeferred cfg os).1 runs runs parked := by
  unfold State.addDeferred
  split
  · exact ok.same rfl rfl rfl rfl
  · obtain ⟨added, bound⟩ := @addOwnedChunk_step cfg s runs parked os _ ok ok.deferred
    generalize s.addOwnedChunk cfg os s.deferredBytes = result at *
    obtain ⟨u, exn | chunkBytes⟩ := result
    · exact added
    · dsimp only at added bound ⊢
      have resized := added.ok.resize (t := { u with
          nextGrowth := chunkBytes, deferredBytes := 0 }) rfl rfl rfl rfl rfl
        (bound chunkBytes rfl) (by simp)
      exact added.trans resized subset_rfl

/-- The search that drains fails when nothing fits after a drain. -/
theorem findOrDrain_eq_zero (ok : RunnerOk cfg s runs parked)
    (normalized : Normalized needed) :
    ((s.findOrDrain cfg needed).2.1 = 0 ↔
        (s.drainRemote cfg).1.NoFit needed) ∧
      ((s.findOrDrain cfg needed).2.1 = 0 →
        (s.findOrDrain cfg needed).1.unmeasured =
          (s.drainRemote cfg).1.unmeasured) := by
  have large : 16 ≤ needed := (by decide : 16 ≤ 48).trans normalized.large
  obtain ⟨_, _, drains⟩ := drainRemote_spec ok
  have kept : (s.drainRemote cfg).1.NoFit needed → s.NoFit needed :=
    ok.noFit_of_shrinks drains.ok (ok.shrinks drains withoutPayloads_subset) large
  obtain ⟨same, _⟩ := @findFit_unmeasured cfg s needed 0 0
  have found := ok.findFit_eq_zero normalized 0
  unfold State.findOrDrain
  generalize s.findFit cfg needed 0 = searched at same found ⊢
  obtain ⟨u, h, count⟩ := searched
  dsimp only at same found ⊢
  by_cases null : h = 0
  swap
  · rw [if_neg null]
    exact ⟨⟨fun zero => absurd zero null, fun full => found.mpr (kept full)⟩,
      fun zero => absurd zero null⟩
  rw [if_pos null]
  obtain ⟨flag, _, drained⟩ := drainRemote_spec (ok.of_unmeasured same)
  have same' : (u.drainRemote cfg).map State.unmeasured id =
      (s.drainRemote cfg).map State.unmeasured id := by
    rw [drainRemote_unmeasured, drainRemote_unmeasured, same]
  have result : (u.drainRemote cfg).1.unmeasured =
      (s.drainRemote cfg).1.unmeasured := congrArg Prod.fst same'
  have full : (u.drainRemote cfg).1.NoFit needed ↔
      (s.drainRemote cfg).1.NoFit needed := drains.ok.noFit_congr result
  generalize u.drainRemote cfg = outcome at flag drained result full ⊢
  obtain ⟨v, reclaimed⟩ := outcome
  dsimp only at flag drained result full
  cases reclaimed with
  | true =>
      dsimp only
      rw [← full]
      exact ⟨drained.ok.findFit_eq_zero normalized count, fun _ =>
        (findFit_unmeasured needed count 0).1.trans result⟩
  | false =>
      dsimp only
      refine ⟨⟨fun _ => ?_, fun _ => null⟩, fun _ => result⟩
      have empty : parked = [] := by simpa using flag
      subst empty
      rw [← full, drained.ok.noFit_iff large]
      have none := (ok.noFit_iff large).mp (found.mp null)
      rintro room
      apply none
      obtain ⟨chunk, member, start, lower, upper, clear⟩ := room
      have chunks : v.chunks = s.chunks := by
        have outer := (unmeasured_eq_iff.mp result).2.2.1
        exact (State.chunks_of_outer outer).trans drainRemote_chunks
      rw [chunks] at member
      refine ⟨chunk, member, start, lower, upper, fun addr size marked =>
        clear addr size ?_⟩
      rw [withoutPayloads_nil] at drained
      exact drained.ok.allocated_iff.mpr (ok.allocated_iff.mp marked)

theorem ownedChunk_fresh {bytes length base : Nat} {chunks : List ChunkNode}
    (bounded : bytes < 2 ^ 64)
    (sized : State.ownedChunkBytesFor cfg bytes = .ok length)
    (granted : os.grant chunks length = some base) :
    Fresh chunks (ownedChunk base length) := by
  obtain ⟨_, large, _, whole⟩ := ownedChunkBytesFor_spec bounded sized
  obtain ⟨positive, aligned, inSpace, apart⟩ := os.sound _ _ _ granted
  exact {
    aligned := aligned
    positive := positive
    sizeAligned := Nat.dvd_trans ownedChunkGranularity_spec.1 whole
    large := large
    bounded := inSpace
    apart := apart }

theorem withChunk_freeRun {chunk : ChunkNode} (heap : HeapOk cfg s blocks)
    (fresh : Fresh s.chunks chunk) :
    (s.withChunk chunk).FreeRun chunk.first (chunk.bytes - 16) := by
  have added : HeapOk cfg (s.withChunk chunk)
      (chunk.wholeRun :: chunk.epilogue :: blocks) :=
    (initializeFreeRun_spec heap fresh).1
  rw [added.freeRun_iff]
  exact ⟨List.mem_cons_self, rfl⟩

/-- A runner that has grown for a request has a free run for it. -/
theorem growFor_fits (ok : RunnerOk cfg s runs parked)
    (normalized : Normalized needed)
    (grows : (s.growFor cfg os needed).2 = .ok ()) :
    ¬ (s.growFor cfg os needed).1.NoFit needed := by
  have grown : RunnerStep cfg s (s.growFor cfg os needed).1 runs runs parked :=
    growFor_step ok normalized
  unfold State.growFor at grows grown ⊢
  dsimp only at grows grown ⊢
  have recorded : RunnerOk cfg (s.record cfg fun stats =>
      { stats with growCalls := wrapAdd stats.growCalls 1 }) runs parked :=
    ok.of_unmeasured (record_unmeasured _)
  generalize (s.record cfg fun stats =>
    { stats with growCalls := wrapAdd stats.growCalls 1 }) = u
      at recorded grows grown ⊢
  cases summed : checkedAdd needed minChunkBytes with
  | none =>
      rw [summed] at grows
      cases grows
  | some overhead =>
      obtain ⟨bounded, rfl⟩ := (checkedAdd_eq_some (by decide)).mp summed
      rw [summed] at grows grown
      have next := recorded.growth
      have added := addOwnedChunk_added cfg u os
        (max u.nextGrowth (needed + minChunkBytes))
      dsimp only at grows grown ⊢
      generalize u.addOwnedChunk cfg os
        (max u.nextGrowth (needed + minChunkBytes)) = outcome
          at added grows grown ⊢
      cases added with
      | overflow => cases grows
      | refused => cases grows
      | @added length base sized granted =>
          have word : max u.nextGrowth (needed + minChunkBytes) < 2 ^ 64 := by
            omega
          have covers := (ownedChunkBytesFor_spec word sized).1
          obtain ⟨blocks, heap, _⟩ := recorded.heap
          have free := withChunk_freeRun heap
            (ownedChunk_fresh word sized granted)
          have overheadEq : minChunkBytes = 64 := rfl
          intro none
          have small := none base (length - 16) (free.congr rfl rfl)
          omega

theorem growFor_error {exn : Exn}
    (fails : (s.growFor cfg os needed).2 = .error exn) :
    (s.growFor cfg os needed).1.unmeasured = s.unmeasured := by
  unfold State.growFor at fails ⊢
  dsimp only at fails ⊢
  have same : (s.record cfg fun stats =>
    { stats with growCalls := wrapAdd stats.growCalls 1 }).unmeasured =
      s.unmeasured := record_unmeasured _
  generalize (s.record cfg fun stats =>
    { stats with growCalls := wrapAdd stats.growCalls 1 }) = u at same fails ⊢
  cases summed : checkedAdd needed minChunkBytes with
  | none => exact same
  | some overhead =>
      rw [summed] at fails
      dsimp only at fails ⊢
      have added := addOwnedChunk_added cfg u os
        (max u.nextGrowth overhead)
      generalize u.addOwnedChunk cfg os (max u.nextGrowth overhead) = outcome
        at added fails ⊢
      cases added with
      | overflow => exact same
      | refused => exact same
      | added => cases fails

theorem findOrDefer_eq (os : Os) (ok : RunnerOk cfg u runs parked)
    (normalized : Normalized needed) (full : u.NoFit needed) (scanCount : Nat) :
    match u.addDeferred cfg os with
    | (v, .error exn) =>
        State.findOrDefer cfg os needed (u, 0, scanCount) = (v, .error exn)
    | (v, .ok ()) => ∃ w h count,
        State.findOrDefer cfg os needed (u, 0, scanCount) =
          (w, .ok (h, count)) ∧ w.unmeasured = v.unmeasured ∧
          (h = 0 ↔ v.NoFit needed) := by
  have added := (addDeferred_step os ok).ok
  unfold State.addDeferred at added ⊢
  unfold State.findOrDefer
  dsimp only
  by_cases none : u.deferredBytes = 0
  · rw [if_pos none, if_neg (by simp [none])]
    exact ⟨u, 0, scanCount, rfl, rfl, by simp [full]⟩
  · rw [if_neg none] at added ⊢
    rw [if_pos ⟨rfl, none⟩]
    generalize u.addOwnedChunk cfg os u.deferredBytes = outcome at added ⊢
    obtain ⟨v, exn | chunkBytes⟩ := outcome
    · rfl
    · exact ⟨_, _, _, rfl, (findFit_unmeasured needed scanCount 0).1,
        added.findFit_eq_zero normalized scanCount⟩

theorem findOrGrow_eq (os : Os) (ok : RunnerOk cfg u runs parked)
    (normalized : Normalized needed) (scanCount : Nat) :
    if cfg.canGrow then
      match u.growFor cfg os needed with
      | (v, .error exn) =>
          u.findOrGrow cfg os needed 0 scanCount = (v, .error exn)
      | (_, .ok ()) => ∃ w h, h ≠ 0 ∧
          u.findOrGrow cfg os needed 0 scanCount = (w, .ok h)
    else u.findOrGrow cfg os needed 0 scanCount = (u, .ok 0) := by
  unfold State.findOrGrow
  by_cases growable : cfg.canGrow = true
  · rw [if_pos growable, if_pos ⟨rfl, growable⟩]
    have fits : (u.growFor cfg os needed).2 = .ok () →
        ¬ (u.growFor cfg os needed).1.NoFit needed := growFor_fits ok normalized
    have grown : RunnerOk cfg (u.growFor cfg os needed).1 runs parked :=
      (growFor_step ok normalized).ok
    generalize u.growFor cfg os needed = outcome at fits grown ⊢
    obtain ⟨v, exn | done⟩ := outcome
    · rfl
    · refine ⟨_, _, fun null => fits rfl ?_, rfl⟩
      exact (grown.findFit_eq_zero normalized scanCount).mp null
  · rw [if_neg growable, if_neg fun both => growable both.2]

/-- A call for a request that is not over-aligned and has a run size leaves at one
of the exits. -/
theorem allocateBytes_exit (os : Os) (ok : RunnerOk cfg s runs parked)
    {bytes alignment : Nat} (word : bytes < 2 ^ 64) (small : alignment ≤ 16)
    (sized : normalizedRunBytesForPayload (if bytes = 0 then 1 else bytes) =
      some needed) :
    Exit cfg s os needed (s.allocateBytes cfg os bytes alignment) := by
  obtain ⟨aligned, large, covers, bounded⟩ :=
    normalizedRunBytesForPayload_spec (by split <;> omega) sized
  have normalized : Normalized needed := ⟨aligned, large, bounded⟩
  unfold State.allocateBytes
  rw [if_neg (Nat.not_lt.mpr small)]
  dsimp only
  generalize (if bytes = 0 then 1 else bytes) = request at sized ⊢
  have same : (s.record cfg fun stats =>
    { stats with
      allocateCalls := wrapAdd stats.allocateCalls 1
      requestedBytes := wrapAdd stats.requestedBytes request }).unmeasured =
      s.unmeasured := record_unmeasured _
  generalize s.record cfg (fun stats =>
    { stats with
      allocateCalls := wrapAdd stats.allocateCalls 1
      requestedBytes := wrapAdd stats.requestedBytes request }) = r at same ⊢
  rw [sized]
  dsimp only
  have recorded := ok.of_unmeasured same
  obtain ⟨_, _, drains⟩ := drainRemote_spec ok
  -- What the drain leaves does not depend on the statistics.
  have sameDrain : (r.drainRemote cfg).1.unmeasured =
      (s.drainRemote cfg).1.unmeasured := by
    have pairs : (r.drainRemote cfg).map State.unmeasured id =
        (s.drainRemote cfg).map State.unmeasured id := by
      rw [drainRemote_unmeasured, drainRemote_unmeasured, same]
    exact congrArg Prod.fst pairs
  obtain ⟨missing, left⟩ := findOrDrain_eq_zero recorded normalized
  rw [drains.ok.noFit_congr sameDrain] at missing
  generalize r.findOrDrain cfg needed = found at missing left ⊢
  obtain ⟨u, h, count⟩ := found
  dsimp only at missing left
  by_cases null : h = 0
  swap
  · have served : (State.resumeAllocate cfg os needed (u, h, count)).2 =
        .ok (h + 16) := resumeAllocate_found null
    generalize State.resumeAllocate cfg os needed (u, h, count) = result
      at served ⊢
    obtain ⟨v, _⟩ := result
    obtain rfl := served
    exact .drained (fun full => null (missing.mpr full)) (by omega)
  subst null
  have full := missing.mp rfl
  have sameLeft := (left rfl).trans sameDrain
  have okLeft := drains.ok.of_unmeasured sameLeft
  have fullLeft := (drains.ok.noFit_congr sameLeft).mpr full
  have reclaims : (u.addDeferred cfg os).map State.unmeasured id =
      (s.reclaim cfg os).map State.unmeasured id := by
    unfold State.reclaim
    rw [addDeferred_unmeasured, addDeferred_unmeasured, sameLeft]
  have okReclaim : RunnerOk cfg (s.reclaim cfg os).1 (withoutPayloads runs parked)
      [] := (addDeferred_step os drains.ok).ok
  have deferred := findOrDefer_eq os okLeft normalized fullLeft count
  unfold State.resumeAllocate
  generalize reclaimEq : s.reclaim cfg os = reclaimed at reclaims okReclaim
  generalize u.addDeferred cfg os = added at deferred reclaims
  obtain ⟨q, ending⟩ := reclaimed
  obtain ⟨v, ending'⟩ := added
  obtain ⟨sameState, rfl⟩ : v.unmeasured = q.unmeasured ∧ ending' = ending :=
    Prod.mk.inj reclaims
  cases ending' with
  | error exn =>
      dsimp only at deferred
      rw [deferred]
      exact .refused full reclaimEq sameState
  | ok done =>
      obtain ⟨w, h, count', result, sameFit, missing⟩ := deferred
      rw [okReclaim.noFit_congr sameState] at missing
      rw [result]
      dsimp only
      by_cases null : h = 0
      swap
      · have grown : w.findOrGrow cfg os needed h count' = (w, .ok h) :=
          if_neg fun both => null both.1
        rw [grown]
        dsimp only
        unfold State.finishAllocate
        rw [if_neg null]
        exact .first full reclaimEq (fun none => null (missing.mpr none))
          (by simp)
      subst null
      have still := missing.mp rfl
      have sameQ := sameFit.trans sameState
      have grown := findOrGrow_eq os (okReclaim.of_unmeasured sameQ)
        normalized count'
      have grows : (w.growFor cfg os needed).map State.unmeasured id =
          (q.growFor cfg os needed).map State.unmeasured id := by
        rw [growFor_unmeasured, growFor_unmeasured, sameQ]
      cases growable : cfg.canGrow with
      | false =>
          rw [if_neg (by simp [growable])] at grown
          rw [grown]
          refine .exhausted full reclaimEq still growable ?_
          exact (record_unmeasured _).trans sameQ
      | true =>
          rw [if_pos growable] at grown
          have kept : ∀ exn, (q.growFor cfg os needed).2 = .error exn →
              (q.growFor cfg os needed).1.unmeasured = q.unmeasured :=
            fun _ fails => growFor_error fails
          generalize growsEq : q.growFor cfg os needed = growth at grows kept
          generalize w.growFor cfg os needed = growth' at grown grows
          obtain ⟨x, ending⟩ := growth
          obtain ⟨y, ending'⟩ := growth'
          obtain ⟨sameGrowth, rfl⟩ :
            y.unmeasured = x.unmeasured ∧ ending' = ending := Prod.mk.inj grows
          cases ending' with
          | error exn =>
              dsimp only at grown
              rw [grown]
              exact .ungrown full reclaimEq still growable (by rw [growsEq])
                (sameGrowth.trans (kept exn rfl))
          | ok done =>
              obtain ⟨z, h, nonnull, result⟩ := grown
              rw [result]
              dsimp only
              unfold State.finishAllocate
              rw [if_neg nonnull]
              exact .grown full reclaimEq still growable (by rw [growsEq])
                (by simp)

end Runner

end Allocazam
