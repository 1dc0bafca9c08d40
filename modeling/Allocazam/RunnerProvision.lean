import Allocazam.GeometricLists
import Allocazam.RunnerExhaustion
import Allocazam.RunnerHoldings

/-!
# The chunks of a growing runner

Every chunk that a runner grows by is at least twice as long as the one it grew by
before, and no shorter than the deferred or the eager first chunk.  So there are few chunks,
and together they are no more than twice the latest.
-/

namespace Allocazam

namespace Runner

variable {cfg : Config} {held next : Holdings} {grown : List ChunkNode}
  {first : ChunkNode} {base length size growth : Nat}

/-- A chunk of whole pages that the growth size bounds from below is twice as long as the
chunk before: the saturated growth size is no multiple of the alignment. -/
theorem twice_le_of_nextAfter (covers : nextAfter size ≤ length) (bounded : length < 2 ^ 64)
    (aligned : 16 ∣ length) : 2 * size ≤ length := by
  unfold nextAfter at covers
  have doubled : (checkedMul size 2).getD (2 ^ 64 - 1) ≤ length :=
    (le_max_left _ _).trans covers
  cases product : checkedMul size 2 with
  | none =>
      rw [product, Option.getD_none] at doubled
      omega
  | some twice =>
      rw [product, Option.getD_some] at doubled
      obtain ⟨_, rfl⟩ := checkedMul_eq_some.mp product
      omega

/-- The chunks that a runner has grown by, the latest first, after the first chunk. -/
structure Amassed (cfg : Config) (grown : List ChunkNode) (first : ChunkNode)
    (growth : Nat) : Prop where
  owned : ∀ chunk ∈ grown, chunk.mappingBytes = chunk.bytes
  covering : ∀ chunk ∈ grown,
    max (State.ownedChunkGranularity cfg) first.mappingBytes ≤ chunk.bytes ∧
      64 ≤ chunk.bytes ∧ chunk.bytes < 2 ^ 64
  doubling : Doubling (grown.map ChunkNode.bytes)
  next : ∀ latest ∈ grown.head?, nextAfter latest.bytes ≤ growth
  nextFirst : first.mappingBytes ≤ growth
  mapped : first.mappingBytes ≤ first.bytes
  fixed : cfg.canGrow = false → grown = []

namespace Amassed

theorem grow (amassed : Amassed cfg grown first growth) (growable : cfg.canGrow = true)
    (covers : growth ≤ length) (large : 64 ≤ length) (bounded : length < 2 ^ 64)
    (whole : State.ownedChunkGranularity cfg ∣ length) :
    Amassed cfg (ownedChunk base length :: grown) first (nextAfter length) where
  owned := by
    rintro chunk (_ | ⟨_, earlier⟩)
    · rfl
    · exact amassed.owned chunk earlier
  covering := by
    have unit := Nat.le_of_dvd (by omega) whole
    have overFirst := amassed.nextFirst.trans covers
    rintro chunk (_ | ⟨_, earlier⟩)
    · exact ⟨max_le unit overFirst, large, bounded⟩
    · exact amassed.covering chunk earlier
  doubling := by
    refine amassed.doubling.cons fun older latest => ?_
    rw [List.head?_map] at latest
    obtain ⟨chunk, isLatest, rfl⟩ := Option.map_eq_some_iff.mp latest
    exact twice_le_of_nextAfter ((amassed.next chunk isLatest).trans covers) bounded
      (ownedChunkGranularity_spec.1.trans whole)
  next := by
    rintro latest (_ | _)
    exact le_rfl
  nextFirst := (amassed.nextFirst.trans covers).trans (le_max_right _ _)
  mapped := amassed.mapped
  fixed := by
    intro fixed
    rw [fixed] at growable
    cases growable

theorem mappingBytes_eq (amassed : Amassed cfg grown first growth) :
    (grown ++ [first]).map ChunkNode.mappingBytes =
      grown.map ChunkNode.bytes ++ [first.mappingBytes] := by
  rw [List.map_append, List.map_congr_left amassed.owned]
  rfl

end Amassed

/-- A runner without a chunk has deferred one; otherwise its chunks are the first and
those that it has grown by. -/
inductive Provisioned (cfg : Config) : Holdings → Prop
  | awaiting {deferredBytes : Nat} (growth : Nat) (deferred : deferredBytes ≠ 0)
      (word : deferredBytes < 2 ^ 64) :
      Provisioned cfg ⟨[], growth, deferredBytes⟩
  | amassed {grown : List ChunkNode} {first : ChunkNode} {growth : Nat}
      (amassed : Amassed cfg grown first growth) :
      Provisioned cfg ⟨grown ++ [first], growth, 0⟩

theorem amassed_first (mapped : first.mappingBytes ≤ first.bytes)
    (below : first.mappingBytes ≤ growth) : Amassed cfg [] first growth where
  owned := by simp
  covering := by simp
  doubling := List.IsChain.nil
  next := by simp
  nextFirst := below
  mapped := mapped
  fixed _ := rfl

theorem Endowed.provisioned (endowed : Endowed cfg held) : Provisioned cfg held := by
  cases endowed with
  | eager => exact @Provisioned.amassed cfg [] _ _ (amassed_first le_rfl le_rfl)
  | deferred word => exact .awaiting _ (by omega) (by omega)
  | @external chunk _ mapping =>
      have none : chunk.mappingBytes ≤ 0 := mapping.le
      exact @Provisioned.amassed cfg [] _ _ (amassed_first (by omega) none)

theorem Obtains.provisioned {os : Os} (obtained : Obtains cfg os held next)
    (provisioned : Provisioned cfg held) : Provisioned cfg next := by
  cases obtained with
  | @first length base deferred sized granted =>
      cases provisioned with
      | awaiting growth _ word =>
          exact @Provisioned.amassed cfg [] _ _ (amassed_first le_rfl le_rfl)
      | amassed => exact absurd rfl deferred
  | @grown needed length base growable undeferred sized granted =>
      cases provisioned with
      | awaiting growth deferred => exact absurd undeferred deferred
      | @amassed grown first growth amassed =>
          obtain ⟨positive, _, bounded, _⟩ := os.sound _ _ _ granted
          obtain ⟨whole, covers⟩ := (ownedChunkBytesFor_isLeast sized).1
          simp only [minChunkBytes_eq] at covers
          exact @Provisioned.amassed cfg (ownedChunk base length :: grown) _ _
            (amassed.grow growable (by omega) (by omega) (by omega) whole)

theorem provisioned_inductive (cfg : Config) :
    (provisions cfg).Inductive (Provisioned cfg) where
  start _ endowed := endowed.provisioned
  step _ _ provisioned := fun ⟨_, obtained⟩ => obtained.provisioned provisioned

/-- What the growth policy promises about the chunks, the latest first. -/
structure Geometric (cfg : Config) (chunks : List ChunkNode) : Prop where
  doubling : Doubling (chunks.dropLast.map ChunkNode.bytes)
  covering : ∀ first ∈ chunks.getLast?, ∀ chunk ∈ chunks, first.mappingBytes ≤ chunk.bytes
  total : ∀ latest ∈ chunks.head?,
    (chunks.map ChunkNode.mappingBytes).sum ≤ 2 * latest.bytes
  few : ∀ latest ∈ chunks.dropLast.head?,
    2 ^ (chunks.length - 2) * max (State.ownedChunkGranularity cfg) 64 ≤ latest.bytes
  length : chunks.length ≤ 59
  fixed : cfg.canGrow = false → chunks.length ≤ 1

theorem Amassed.few {latest : ChunkNode} (amassed : Amassed cfg (latest :: grown) first growth) :
    2 ^ grown.length * max (State.ownedChunkGranularity cfg) 64 ≤ latest.bytes := by
  have atLeast : ∀ size ∈ (latest :: grown).map ChunkNode.bytes,
      max (State.ownedChunkGranularity cfg) 64 ≤ size := by
    refine List.forall_mem_map.mpr fun chunk listed => ?_
    obtain ⟨covers, large, _⟩ := amassed.covering chunk listed
    omega
  have grows := Doubling.two_pow_mul_le amassed.doubling atLeast
  rwa [List.length_map] at grows

theorem Amassed.geometric (amassed : Amassed cfg grown first growth) :
    Geometric cfg (grown ++ [first]) where
  doubling := by
    rw [List.dropLast_concat]
    exact amassed.doubling
  covering := by
    rw [List.getLast?_concat]
    rintro _ ⟨⟩ chunk member
    rcases List.mem_append.mp member with later | isFirst
    · have covers := (amassed.covering chunk later).1
      omega
    · rw [List.mem_singleton.mp isFirst]
      exact amassed.mapped
  total := by
    rw [amassed.mappingBytes_eq]
    cases grown with
    | nil =>
        rintro _ ⟨⟩
        have mapped := amassed.mapped
        simp only [List.map_nil, List.nil_append, List.sum_singleton]
        omega
    | cons latest earlier =>
        rintro _ ⟨⟩
        have atLeast : ∀ size ∈ (latest :: earlier).map ChunkNode.bytes,
            first.mappingBytes ≤ size := by
          refine List.forall_mem_map.mpr fun chunk listed => ?_
          have covers := (amassed.covering chunk listed).1
          omega
        have total := Doubling.sum_add_le amassed.doubling atLeast
        rw [List.map_cons, List.cons_append, List.sum_cons, List.sum_append,
          List.sum_singleton]
        omega
  few := by
    rw [List.dropLast_concat, List.length_append]
    cases grown with
    | nil => simp
    | cons latest earlier =>
        rintro _ ⟨⟩
        exact amassed.few
  length := by
    rw [List.length_append]
    cases grown with
    | nil => simp
    | cons latest earlier =>
        have few := amassed.few
        have bounded := (amassed.covering latest (by simp)).2.2
        by_contra many
        rw [List.length_cons, List.length_singleton] at many
        have power : 2 ^ 58 ≤ 2 ^ earlier.length :=
          Nat.pow_le_pow_right (by decide) (by omega)
        have product := Nat.mul_le_mul power
          (le_max_right (State.ownedChunkGranularity cfg) 64)
        omega
  fixed := by
    intro fixed
    rw [amassed.fixed fixed]
    simp

/-- The chunks of a runner grow geometrically, whatever its users do. -/
theorem chunks_geometric {session : Session} (reachable : (sessions cfg).Reachable session) :
    Geometric cfg session.state.chunks := by
  have provisioned := (provisioned_inductive cfg).reachable (holdings_reachable reachable)
  unfold Allocator.holdings at provisioned
  cases held : session.state.chunks with
  | nil => exact ⟨.nil, by simp, by simp, by simp, by simp, by simp⟩
  | cons latest earlier =>
      rw [held] at provisioned
      generalize session.state.nextGrowth = growth at provisioned
      generalize session.state.deferredBytes = deferred at provisioned
      generalize listed : latest :: earlier = chunks at provisioned
      cases provisioned with
      | awaiting => cases listed
      | amassed amassed => exact amassed.geometric

/-- A session that obtains its first chunk and grows twice. -/
def grownSession : Session :=
  (((Session.mk (State.constructLazy (fun _ => 0) 5000) []).perform growingConfig
    (.allocateBytes lowOs 24 16)).perform growingConfig
      (.allocateBytes highOs 9000 16)).perform growingConfig
        (.allocateBytes farOs 30000 16)

theorem grownSession_reachable : (sessions growingConfig).Reachable grownSession :=
  reachable_call (reachable_call (reachable_call (.start (.deferred (by decide)))
    (.allocateBytes lowOs 24 16) (show 24 < 2 ^ 64 by decide))
      (.allocateBytes highOs 9000 16) (show 9000 < 2 ^ 64 by decide))
        (.allocateBytes farOs 30000 16) (show 30000 < 2 ^ 64 by decide)

theorem grownSession_geometric :
    grownSession.state.chunks.map ChunkNode.bytes = [32768, 12288, 8192] ∧
      Geometric growingConfig grownSession.state.chunks :=
  ⟨by decide +kernel, chunks_geometric grownSession_reachable⟩

end Runner

end Allocazam
