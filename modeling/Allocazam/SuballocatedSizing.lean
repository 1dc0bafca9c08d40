import Allocazam.PoolSizing
import Allocazam.SuballocatedClassifier

/-!
# The sizes of the pools and of the runner of a state

Every size that a state computes without a check was checked, as part of a larger
one, when the first chunk of its pool was constructed.
-/

namespace Allocazam

namespace Suballocated

variable {Value Thread Bound : Type} [DecidableEq Value] [DecidableEq Thread]
  [DecidableEq Bound]

section States

variable {fam : Family Value Thread Bound} {session : Session fam}
  {site : Site Value Thread Bound}

theorem pools_recounted (reachable : (sessions fam).Reachable session)
    (heapBacked : fam.heapBacked = true) {chunk : Pool.Chunk}
    (member : chunk ∈ (session.world.states site).pool.chunks)
    (nonnull : chunk.nodes ≠ 0) : chunk.Recounted (fam.poolConfig site) := by
  obtain ⟨ledger, ok⟩ := sessions_inductive.reachable reachable
  cases created : session.world.created site with
  | true =>
      obtain ⟨_, _, _, _, pool⟩ := ok.world.poolOk created
      exact pool.balanced.laid.recounted heapBacked member nonnull
  | false =>
      have vacant := (ok.world.unborn site created).pool.chunks chunk member
      rw [vacant] at nonnull
      exact absurd rfl nonnull

theorem World.constructSized_exact {w : World Value Thread Bound}
    {heap : Pool.Heap} {os : Runner.Os} {poolSize runnerBytes : Nat}
    {pool : Pool.State} (fixed : fam.mode = MemoryMode.fixed)
    (constructed :
      Pool.State.construct (fam.poolConfig site) heap w.mem poolSize = .ok pool) :
    (w.constructSized fam site heap os poolSize runnerBytes).2 =
      (Runner.State.construct (fam.runsConfig site) os pool.mem
        (max (poolSize * fam.sizeOf (fam.valueOf site)) 4096)).map fun _ => () := by
  have product : poolSize * fam.sizeOf (fam.valueOf site) < 2 ^ 64 :=
    Pool.construct_bounded constructed
  unfold constructSized
  rw [constructed]
  dsimp only
  rw [if_pos fixed, Nat.mod_eq_of_lt product]
  generalize Runner.State.construct (fam.runsConfig site) os pool.mem _ = runs
  obtain exn | runs := runs <;> rfl

end States

/-- A chunk is refused exactly when its size is no word, before anything is
allocated, and else allocated with exactly that size.  What is computed anew later
does not wrap, in the pools of all runs and for the runner of a fixed state. -/
theorem chunkSizing_exact (fam : Family Value Thread Bound) :
    (∀ (cfg : Pool.Config) (s : Pool.State) (heap : Pool.Heap) (slots : Nat),
      ((s.constructChunk cfg heap slots).2 = .error .badArrayNewLength ↔
        2 ^ 64 ≤ cfg.exactBytes slots) ∧
      (2 ^ 64 ≤ cfg.exactBytes slots →
        s.constructChunk cfg heap slots = (s, .error .badArrayNewLength)) ∧
      (cfg.exactBytes slots < 2 ^ 64 →
        (heap.grant (cfg.exactBytes slots) cfg.chunkAlign = none →
          s.constructChunk cfg heap slots = (s, .error .refused)) ∧
        ∀ base, heap.grant (cfg.exactBytes slots) cfg.chunkAlign = some base →
          (s.constructChunk cfg heap slots).2 = .ok ⟨slots, cfg.chunkAlign, base⟩) ∧
      ∀ t chunk, s.constructChunk cfg heap slots = (t, .ok chunk) →
        cfg.ownerHeaders = true → chunk.Recounted cfg) ∧
    (∀ (cfg : Pool.Config) slots deferred session,
      (Pool.sessions cfg slots deferred).Reachable session →
        cfg.ownerHeaders = true → ∀ chunk ∈ session.state.chunks,
          chunk.nodes ≠ 0 → chunk.Recounted cfg) ∧
    (∀ session, (sessions fam).Reachable session → fam.heapBacked = true →
      ∀ site, ∀ chunk ∈ (session.world.states site).pool.chunks,
        chunk.nodes ≠ 0 → chunk.Recounted (fam.poolConfig site)) ∧
    ∀ (w : World Value Thread Bound) site heap os poolSize runnerBytes pool,
      fam.mode = MemoryMode.fixed →
      Pool.State.construct (fam.poolConfig site) heap w.mem poolSize = .ok pool →
        poolSize * fam.sizeOf (fam.valueOf site) < 2 ^ 64 ∧
          (w.constructSized fam site heap os poolSize runnerBytes).2 =
            (Runner.State.construct (fam.runsConfig site) os pool.mem
              (max (poolSize * fam.sizeOf (fam.valueOf site)) 4096)).map
                fun _ => () := by
  refine ⟨fun cfg s heap slots => ⟨?_, ?_, ?_, ?_⟩, ?_, ?_, ?_⟩
  · exact Pool.constructChunk_badArrayNewLength
  · exact Pool.constructChunk_large
  · exact fun fits => ⟨Pool.constructChunk_refused fits,
      fun base => Pool.constructChunk_served fits⟩
  · exact fun t chunk built headers =>
      (Pool.constructChunk_fresh built).placed.recounted headers
  · exact fun cfg slots deferred session reachable headers chunk member =>
      Pool.sessions_recounted headers reachable member
  · exact fun session reachable heapBacked site chunk =>
      pools_recounted reachable heapBacked
  · exact fun w site heap os poolSize runnerBytes pool fixed constructed =>
      ⟨Pool.construct_bounded constructed,
        World.constructSized_exact fixed constructed⟩

/-- The least refused size, a page that is served, and two pools with headers. -/
theorem sampleChunks_sized :
    ((Pool.sampleState .fixed).constructChunk (Pool.samplePool .fixed) Pool.onePage
        (2 ^ 61)).2 = .error .badArrayNewLength ∧
      ((Pool.sampleState .fixed).constructChunk (Pool.samplePool .fixed) Pool.onePage
        512).2 = .ok ⟨512, 4096, 65536⟩ ∧
      Pool.Chunk.Recounted Pool.headerPool ⟨3, 4096, 65536⟩ ∧
      2 * fixedFamily.sizeOf false < 2 ^ 64 := by
  obtain ⟨constructor, _, _, state⟩ := chunkSizing_exact fixedFamily
  have large : 2 ^ 64 ≤ (Pool.samplePool .fixed).exactBytes (2 ^ 61) := by decide
  have page : (Pool.samplePool .fixed).exactBytes 512 = 4096 := by decide
  refine ⟨(constructor _ _ _ _).1.mpr large, ?_, ?_, ?_⟩
  · refine ((constructor _ _ _ _).2.2.1 (page.trans_lt (by decide))).2 65536 ?_
    rw [page]
    rfl
  · exact (constructor Pool.headerPool (Pool.State.blank Pool.headerPool (fun _ => 0)
      1) Pool.onePage 3).2.2.2 _ _ (Prod.ext rfl rfl) rfl
  · exact (state (World.initial fixedFamily fun _ => 0) (.bound ()) Pool.onePage
      (sampleEnvironment.os 0) 2 0 _ rfl rfl).1

end Suballocated

end Allocazam
