import Allocazam.RunnerExits
import Allocazam.RunnerGrowth

/-!
# Exhaustion

The fit search misses no free run and picks one from the lowest bin.  A fixed
runner returns null exactly when it is exhausted, a growable one never for want
of memory.
-/

namespace Allocazam

namespace Runner

variable {cfg : Config} {s : State} {os : Os} {w : World} {blocks : List Block}
  {runs : Set Block} {parked : List Nat} {needed : Nat}

/-- The run found lies in the lowest bin with a run that fits; a bin below the
linear cutoff has runs of one size only. -/
theorem findFit_tightest (heap : HeapOk cfg s blocks)
    (normalized : Normalized needed) {scanCount : Nat}
    (found : (s.findFit cfg needed scanCount).2.1 ≠ 0) :
    ∃ size, s.FreeRun (s.findFit cfg needed scanCount).2.1 size ∧
      needed ≤ size ∧ ∀ addr other, s.FreeRun addr other → needed ≤ other →
        binIndexFor size ≤ binIndexFor other ∧
          (size < linearBinCutoff → size ≤ other) := by
  have sound : Fits (freeRuns blocks) needed (s.findFit cfg needed scanCount).2.1 :=
    findFit_sound heap normalized.aligned normalized.word
  obtain ⟨block, member, addrEq, fits⟩ := sound.resolve_left found
  have shape : (⟨block.addr, block.size, .free⟩ : Block) = block := by
    rw [← member.2]
  refine ⟨block.size, ?_, fits, fun addr other free fit => ?_⟩
  · rw [heap.freeRun_iff, ← addrEq, shape]
    exact member
  have free' := heap.freeRun_iff.mp free
  have lowest : binIndexFor block.size ≤ binIndexFor other :=
    (findFit_lowest heap free' fit normalized.aligned).2 block member addrEq
  refine ⟨lowest, fun small => ?_⟩
  have linkable := heap.layout.linkable
  have aligned := linkable.sizeAligned block member
  have bounded := linkable.sizeBound block member
  have otherAligned := linkable.sizeAligned _ free'
  have otherBounded := linkable.sizeBound _ free'
  dsimp only at otherAligned otherBounded
  by_contra larger
  have ordered := binIndexFor_mono otherAligned aligned bounded (by omega)
  have linear : binIndexFor block.size < 512 := by
    have cutoff : linearBinCutoff = 4096 := rfl
    rw [binIndexFor_eq aligned bounded, if_pos (by omega)]
    omega
  have same := eq_of_binIndexFor_eq aligned otherAligned bounded otherBounded
    (by omega) linear
  omega

/-- A fixed runner returns null when nothing fits after it has reclaimed what it
can, and only then. -/
theorem allocateBytes_exhausted (ok : RunnerOk cfg s runs parked)
    (fixed : cfg.canGrow = false) {bytes alignment : Nat} (word : bytes < 2 ^ 64)
    (small : alignment ≤ 16)
    (sized : normalizedRunBytesForPayload (if bytes = 0 then 1 else bytes) =
      some needed) :
    (s.allocateBytes cfg os bytes alignment).2 = .ok 0 ↔
      ∃ t, s.reclaim cfg os = (t, .ok ()) ∧ t.NoFit needed := by
  have normalized : Normalized needed := by
    obtain ⟨aligned, large, _, bounded⟩ :=
      normalizedRunBytesForPayload_spec (by split <;> omega) sized
    exact ⟨aligned, large, bounded⟩
  have exits := allocateBytes_exit os ok word small sized
  generalize s.allocateBytes cfg os bytes alignment = result at exits ⊢
  constructor
  · intro null
    cases exits with
    | drained fits nonnull => exact absurd (Except.ok.inj null) nonnull
    | refused full fails same => cases null
    | first full reclaims fits nonnull => exact absurd (Except.ok.inj null) nonnull
    | exhausted full reclaims still fixed same => exact ⟨_, reclaims, still⟩
    | ungrown full reclaims still growable => cases null
    | grown full reclaims still growable => simp [fixed] at growable
  · rintro ⟨t, reclaims, none⟩
    cases exits with
    | drained fits nonnull =>
        obtain ⟨_, _, drains⟩ := drainRemote_spec ok
        have added := addDeferred_step os drains.ok
        have shrinks := drains.ok.shrinks added subset_rfl
        have after := added.ok
        have same : (s.drainRemote cfg).1.addDeferred cfg os = (t, .ok ()) :=
          reclaims
        rw [same] at shrinks after
        exact absurd (drains.ok.noFit_of_shrinks after shrinks
          ((by decide : 16 ≤ 48).trans normalized.large) none) fits
    | refused full fails same =>
        rw [reclaims] at fails
        cases fails
    | first full again fits nonnull =>
        rw [reclaims] at again
        obtain ⟨rfl, _⟩ := Prod.mk.inj again
        exact absurd none fits
    | exhausted full again still fixed same => rfl
    | ungrown full again still growable => simp [fixed] at growable
    | grown full again still growable => simp [fixed] at growable

/-- The fit search of every interleaving is complete and picks the tightest bin,
and a fixed runner fails only when exhausted. -/
theorem search_exact (reachable : (interleavings cfg).Reachable w) :
    (∀ bytes < 2 ^ 64, ∀ needed, normalizedRunBytesForPayload bytes = some needed →
      ∀ scanCount,
        let h := (w.state.findFit cfg needed scanCount).2.1
        (h = 0 ↔ w.state.NoFit needed) ∧
        (h ≠ 0 → ∃ size, w.state.FreeRun h size ∧ needed ≤ size ∧
          ∀ addr other, w.state.FreeRun addr other → needed ≤ other →
            binIndexFor size ≤ binIndexFor other ∧
              (size < linearBinCutoff → size ≤ other))) ∧
    (cfg.canGrow = false → ∀ os, ∀ bytes < 2 ^ 64, ∀ alignment ≤ runAlignment,
      ∀ needed,
        normalizedRunBytesForPayload (if bytes = 0 then 1 else bytes) =
          some needed →
        ((w.state.allocateBytes cfg os bytes alignment).2 = .ok 0 ↔
          ∃ t, w.state.reclaim cfg os = (t, .ok ()) ∧ t.NoFit needed)) := by
  obtain ⟨runs, pending, inv⟩ := (worldOk_inductive cfg).reachable reachable
  constructor
  · intro bytes word needed sized scanCount
    obtain ⟨aligned, large, _, bounded⟩ :=
      normalizedRunBytesForPayload_spec word sized
    have normalized : Normalized needed := ⟨aligned, large, bounded⟩
    obtain ⟨blocks, heap, _⟩ := inv.ok.heap
    exact ⟨heap.findFit_eq_zero normalized scanCount, findFit_tightest heap normalized⟩
  · intro fixed os bytes word alignment small needed sized
    exact allocateBytes_exhausted inv.ok fixed word small sized

theorem parkedWorld_exhausted :
    normalizedRunBytesForPayload 5000 = some 5024 ∧
      ((parkedWorld.state.allocateBytes sampleConfig refusing 5000 16).2 =
          .ok 0 ↔
        ∃ t, parkedWorld.state.reclaim sampleConfig refusing = (t, .ok ()) ∧
          t.NoFit 5024) :=
  ⟨by decide +kernel, (search_exact parkedWorld_reachable).2 rfl refusing 5000
    (by decide) 16 (by decide) 5024 (by decide +kernel)⟩

/-- Why `_add_owned_chunk` throws: no length for `bytes` bytes is a word, or the OS
refuses the shortest. -/
def ChunkFails (cfg : Config) (os : Os) (chunks : List ChunkNode) (bytes : Nat)
    (exn : Exn) : Prop :=
  exn = .badAlloc ∧ (∀ length ∈ chunkLengths cfg (max bytes minChunkBytes),
      2 ^ 64 ≤ length) ∨
    exn = .refused ∧ ∃ length,
      IsLeast (chunkLengths cfg (max bytes minChunkBytes)) length ∧
        length < 2 ^ 64 ∧ os.grant chunks length = none

/-- Why `_grow_for` throws: the request with its overhead is no word, or the chunk
fails. -/
def GrowthFails (cfg : Config) (os : Os) (s : State) (needed : Nat) (exn : Exn) :
    Prop :=
  exn = .badAlloc ∧ 2 ^ 64 ≤ needed + minChunkBytes ∨
    needed + minChunkBytes < 2 ^ 64 ∧
      ChunkFails cfg os s.chunks (max s.nextGrowth (needed + minChunkBytes)) exn

theorem addOwnedChunk_fails {bytes : Nat} {exn : Exn} (bounded : bytes < 2 ^ 64)
    (fails : (s.addOwnedChunk cfg os bytes).2 = .error exn) :
    ChunkFails cfg os s.chunks bytes exn := by
  have added := addOwnedChunk_added cfg s os bytes
  generalize s.addOwnedChunk cfg os bytes = outcome at added fails
  cases added with
  | overflow sized =>
      obtain rfl := Except.error.inj fails
      exact Or.inl ((ownedChunkBytesFor_eq_error bounded).mp sized)
  | refused sized refuses =>
      obtain rfl := Except.error.inj fails
      exact Or.inr ⟨rfl, _, ownedChunkBytesFor_isLeast sized,
        (ownedChunkBytesFor_spec bounded sized).2.2.1, refuses⟩
  | added => cases fails

theorem addDeferred_fails {exn : Exn} (bounded : s.deferredBytes < 2 ^ 64)
    (fails : (s.addDeferred cfg os).2 = .error exn) :
    s.deferredBytes ≠ 0 ∧ ChunkFails cfg os s.chunks s.deferredBytes exn := by
  unfold State.addDeferred at fails
  split at fails
  · cases fails
  · rename_i deferred
    refine ⟨deferred, @addOwnedChunk_fails cfg s os _ exn bounded ?_⟩
    generalize s.addOwnedChunk cfg os s.deferredBytes = outcome at fails ⊢
    obtain ⟨u, failure | chunkBytes⟩ := outcome
    · obtain rfl : failure = exn := Except.error.inj fails
      rfl
    · cases fails

theorem growFor_fails {exn : Exn} (word : s.nextGrowth < 2 ^ 64)
    (fails : (s.growFor cfg os needed).2 = .error exn) :
    GrowthFails cfg os s needed exn := by
  unfold State.growFor at fails
  dsimp only at fails
  have same : (s.record cfg fun stats =>
    { stats with growCalls := wrapAdd stats.growCalls 1 }).unmeasured =
      s.unmeasured := record_unmeasured _
  generalize (s.record cfg fun stats =>
    { stats with growCalls := wrapAdd stats.growCalls 1 }) = u at same fails
  have next : u.nextGrowth = s.nextGrowth := congrArg (fun v => v.nextGrowth) same
  have chunks : u.chunks = s.chunks := congrArg (fun v => v.chunks) same
  cases summed : checkedAdd needed minChunkBytes with
  | none =>
      rw [summed] at fails
      obtain rfl := Except.error.inj fails
      exact Or.inl ⟨rfl, (checkedAdd_eq_none (by decide)).mp summed⟩
  | some overhead =>
      obtain ⟨bounded, rfl⟩ := (checkedAdd_eq_some (by decide)).mp summed
      rw [summed, next] at fails
      dsimp only at fails
      have failed : ∀ failure, (u.addOwnedChunk cfg os
          (max s.nextGrowth (needed + minChunkBytes))).2 = .error failure →
          ChunkFails cfg os u.chunks
            (max s.nextGrowth (needed + minChunkBytes)) failure :=
        fun failure thrown => addOwnedChunk_fails (by omega) thrown
      rw [chunks] at failed
      generalize u.addOwnedChunk cfg os
        (max s.nextGrowth (needed + minChunkBytes)) = outcome at failed fails
      obtain ⟨v, failure | chunkBytes⟩ := outcome
      · obtain rfl : failure = exn := Except.error.inj fails
        exact Or.inr ⟨bounded, failed _ rfl⟩
      · cases fails

/-- Why an allocation of a growable runner throws: its deferred first chunk fails, or
its growth after that. -/
def AllocationFails (cfg : Config) (os : Os) (s : State) (needed : Nat)
    (exn : Exn) : Prop :=
  s.deferredBytes ≠ 0 ∧ ChunkFails cfg os s.chunks s.deferredBytes exn ∨
    ∃ t, s.reclaim cfg os = (t, .ok ()) ∧ GrowthFails cfg os t needed exn

theorem drainRemote_deferred :
    (s.drainRemote cfg).1.deferredBytes = s.deferredBytes := by
  have sizing : (s.drainRemote cfg).1.sizing = s.sizing := drainRemote_sizing
  exact congrArg Prod.snd sizing

/-- A growable runner returns a payload or throws, unless the request itself is
refused. -/
theorem allocateBytes_growable (os : Os) (ok : RunnerOk cfg s runs parked)
    (growable : cfg.canGrow = true) {bytes alignment : Nat}
    (word : bytes < 2 ^ 64) (small : alignment ≤ 16)
    (sized : normalizedRunBytesForPayload (if bytes = 0 then 1 else bytes) =
      some needed) :
    match (s.allocateBytes cfg os bytes alignment).2 with
    | .ok p => p ≠ 0
    | .error exn => AllocationFails cfg os s needed exn := by
  have exits := allocateBytes_exit os ok word small sized
  obtain ⟨_, _, drains⟩ := drainRemote_spec ok
  have reclaimed : RunnerOk cfg (s.reclaim cfg os).1 (withoutPayloads runs parked)
      [] := (addDeferred_step os drains.ok).ok
  generalize s.allocateBytes cfg os bytes alignment = result at exits ⊢
  cases exits with
  | drained fits nonnull => exact nonnull
  | @refused r t exn full fails same =>
      have thrown : ((s.drainRemote cfg).1.addDeferred cfg os).2 = .error exn :=
        congrArg Prod.snd fails
      have deferred := addDeferred_fails drains.ok.deferred thrown
      rw [drainRemote_deferred, drainRemote_chunks] at deferred
      exact Or.inl deferred
  | first full reclaims fits nonnull => exact nonnull
  | exhausted full reclaims still fixed =>
      rw [growable] at fixed
      cases fixed
  | ungrown full reclaims still _ fails =>
      rw [reclaims] at reclaimed
      exact Or.inr ⟨_, reclaims, growFor_fails reclaimed.growth fails⟩
  | grown full reclaims still _ grows nonnull => exact nonnull

/-- A growable runner fails only for a request that has no run size, for a length
that is no word or for an OS that refuses, and growth is enough whatever its
size. -/
theorem growth_suffices (reachable : (interleavings cfg).Reachable w)
    (growable : cfg.canGrow = true) :
    (∀ os, ∀ bytes < 2 ^ 64, ∀ alignment,
      let request := if bytes = 0 then 1 else bytes
      let outcome := (w.state.allocateBytes cfg os bytes alignment).2
      (outcome = .ok 0 ↔ runAlignment < alignment ∨
        2 ^ 64 ≤ 16 + (request + 15) / 16 * 16) ∧
      ∀ exn, outcome = .error exn → ∃ needed,
        normalizedRunBytesForPayload request = some needed ∧
          AllocationFails cfg os w.state needed exn) ∧
    ∀ growth < 2 ^ 64, ∀ os bytes needed scanCount, bytes < 2 ^ 64 →
      normalizedRunBytesForPayload bytes = some needed →
      let s := { w.state with nextGrowth := growth }
      (s.growFor cfg os needed).2 = .ok () →
        ((s.growFor cfg os needed).1.findFit cfg needed scanCount).2.1 ≠ 0 := by
  obtain ⟨runs, pending, inv⟩ := (worldOk_inductive cfg).reachable reachable
  constructor
  · intro os bytes word alignment
    dsimp only
    have requestWord : (if bytes = 0 then 1 else bytes) < 2 ^ 64 := by
      split <;> omega
    by_cases overAligned : runAlignment < alignment
    · have null : (w.state.allocateBytes cfg os bytes alignment).2 = .ok 0 := by
        unfold State.allocateBytes
        rw [if_pos overAligned]
      rw [null]
      exact ⟨by simp [overAligned], fun exn thrown => by cases thrown⟩
    have small : alignment ≤ 16 := Nat.le_of_not_lt overAligned
    by_cases fits : 16 + ((if bytes = 0 then 1 else bytes) + 15) / 16 * 16 < 2 ^ 64
    · have sized := normalizedRunBytesForPayload_eq requestWord
      rw [if_pos fits] at sized
      have ends := allocateBytes_growable os inv.ok growable word small sized
      cases outcome : (w.state.allocateBytes cfg os bytes alignment).2 with
      | ok p =>
          rw [outcome] at ends
          refine ⟨⟨fun null => absurd (Except.ok.inj null) ends, ?_⟩, ?_⟩
          · rintro (strict | large)
            · exact absurd strict overAligned
            · omega
          · intro exn thrown
            cases thrown
      | error failure =>
          rw [outcome] at ends
          refine ⟨⟨fun null => ?_, ?_⟩, fun exn thrown => ?_⟩
          · cases null
          · rintro (strict | large)
            · exact absurd strict overAligned
            · omega
          · obtain rfl := Except.error.inj thrown
            exact ⟨_, sized, ends⟩
    · have sized := normalizedRunBytesForPayload_eq requestWord
      rw [if_neg fits] at sized
      have null : (w.state.allocateBytes cfg os bytes alignment).2 = .ok 0 := by
        unfold State.allocateBytes
        rw [if_neg overAligned]
        dsimp only
        rw [sized]
        rfl
      rw [null]
      exact ⟨⟨fun _ => Or.inr (Nat.le_of_not_lt fits), fun _ => rfl⟩,
        fun exn thrown => by cases thrown⟩
  · intro growth bounded os bytes needed scanCount word sized
    dsimp only
    intro grows
    obtain ⟨aligned, large, _, needBound⟩ :=
      normalizedRunBytesForPayload_spec word sized
    have normalized : Normalized needed := ⟨aligned, large, needBound⟩
    have resized := (inv.ok.resize (t := { w.state with nextGrowth := growth })
      rfl rfl rfl rfl rfl bounded inv.ok.deferred).ok
    have fits := growFor_fits resized normalized grows
    have grown : RunnerOk cfg (State.growFor cfg
        { w.state with nextGrowth := growth } os needed).1 runs w.journal.stack :=
      (growFor_step resized normalized).ok
    exact fun null => fits ((grown.findFit_eq_zero normalized scanCount).mp null)

def growingConfig : Config :=
  { sampleConfig with canGrow := true }

def growingWorld : World where
  state := State.constructLazy (fun _ => 0) 0
  live := []
  pushes := []
  owner := .idle
  journal := ⟨[], [], 0, State.constructLazy (fun _ => 0) 0⟩

theorem growingWorld_reachable :
    (interleavings growingConfig).Reachable growingWorld :=
  .start ⟨.deferred (by decide), rfl, rfl, rfl, rfl, rfl⟩

theorem growingWorld_suffices :
    (growingWorld.state.allocateBytes growingConfig refusing 1 32).2 = .ok 0 ∧
      (growingWorld.state.allocateBytes growingConfig refusing (2 ^ 64 - 17) 16).2 =
        .ok 0 ∧
      AllocationFails growingConfig refusing growingWorld.state 48 .refused := by
  have enough := (growth_suffices growingWorld_reachable rfl).1 refusing
  obtain ⟨needed, sized, fails⟩ :=
    (enough 1 (by decide) 16).2 .refused (by decide +kernel)
  have exact : normalizedRunBytesForPayload 1 = some 48 := by decide +kernel
  obtain rfl : 48 = needed := Option.some.inj (exact.symm.trans sized)
  exact ⟨(enough 1 (by decide) 32).1.mpr (by decide),
    (enough (2 ^ 64 - 17) (by decide) 16).1.mpr (by decide), fails⟩

end Runner

end Allocazam
