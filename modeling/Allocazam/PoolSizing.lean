import Allocazam.PoolGranules
import Allocazam.PoolSession
import Mathlib.Algebra.Order.Floor.Div

/-!
# The sizes of chunks

The constructor of a chunk checks its arithmetic and refuses exactly the sizes that
are no words.  What `contains` and `stamp_owner` compute anew, they need not check.
-/

namespace Allocazam

namespace Pool

namespace Config

variable (cfg : Config)

/-- The size of a chunk of `slots` nodes: whole granules, or nodes rounded up to
whole pages. -/
def exactBytes (slots : Nat) : Nat :=
  if cfg.ownerHeaders then slots ⌈/⌉ cfg.nodesPerGranule cfg.granule * cfg.granule
  else slots * cfg.nodeBytes ⌈/⌉ cfg.pageSize * cfg.pageSize

variable {cfg} {slots bytes : Nat}

theorem exactBytes_headers (headers : cfg.ownerHeaders = true) :
    cfg.exactBytes slots = (slots + cfg.nodesPerGranule cfg.granule - 1) /
      cfg.nodesPerGranule cfg.granule * cfg.granule :=
  if_pos headers

/-- Rounded up to whole pages. -/
theorem exactBytes_isLeast (slots : Nat) (raw : ¬ cfg.ownerHeaders = true) :
    IsLeast {covering | cfg.pageSize ∣ covering ∧ slots * cfg.nodeBytes ≤ covering}
      (cfg.exactBytes slots) := by
  have positive : 0 < cfg.pageSize := by
    obtain ⟨bits, _, pageEq⟩ := cfg.pageBits
    rw [pageEq]
    exact Nat.two_pow_pos bits
  unfold exactBytes
  rw [if_neg raw]
  constructor
  · refine ⟨Dvd.intro_left _ rfl, ?_⟩
    rw [Nat.mul_comm (_ ⌈/⌉ _)]
    exact le_smul_ceilDiv positive
  · rintro other ⟨⟨pages, rfl⟩, covers⟩
    rw [Nat.mul_comm cfg.pageSize]
    exact Nat.mul_le_mul_right _ ((ceilDiv_le_iff_le_smul positive).mpr covers)

theorem pageSize_bounds : 0 < cfg.pageSize ∧ cfg.pageSize < 2 ^ 64 := by
  obtain ⟨bits, small, pageEq⟩ := cfg.pageBits
  rw [pageEq]
  exact ⟨Nat.two_pow_pos bits, Nat.pow_lt_pow_right (by decide) small⟩

/-- Before the sum of the slots and the rest of a granule overflows, the granules
are too large. -/
theorem exactBytes_of_overflow (headers : cfg.ownerHeaders = true)
    (overflow : 2 ^ 64 ≤ slots + (cfg.nodesPerGranule cfg.granule - 1)) :
    2 ^ 64 ≤ cfg.exactBytes slots := by
  have nodes := Chunk.le_granules cfg slots
  have slim := Chunk.nodesPerGranule_le cfg
  obtain ⟨⟨bits, bitsBound, granuleEq⟩, _⟩ := cfg.granule_spec
  have granuleLt : cfg.granule < 2 ^ 64 := by
    rw [granuleEq]
    exact Nat.pow_lt_pow_right (by decide) bitsBound
  rw [exactBytes_headers headers]
  omega

theorem chunkBytes_headers (headers : cfg.ownerHeaders = true) :
    cfg.chunkBytes slots =
      if cfg.exactBytes slots < 2 ^ 64 then some (cfg.exactBytes slots)
      else none := by
  obtain ⟨positive, _⟩ := cfg.nodesPerGranule_spec
  have small := cfg.nodesPerGranule_lt
  unfold chunkBytes
  dsimp only
  rw [if_pos headers]
  cases sum : checkedAdd slots (cfg.nodesPerGranule cfg.granule - 1) with
  | none =>
      have large := exactBytes_of_overflow headers
        ((checkedAdd_eq_none (by omega)).mp sum)
      rw [if_neg (by omega)]
      rfl
  | some total =>
      obtain ⟨_, rfl⟩ := (checkedAdd_eq_some (by omega)).mp sum
      have product : (slots + (cfg.nodesPerGranule cfg.granule - 1)) /
          cfg.nodesPerGranule cfg.granule * cfg.granule = cfg.exactBytes slots := by
        rw [exactBytes_headers headers, Nat.add_sub_assoc positive]
      show checkedMul _ _ = _
      split
      · rename_i fits
        rw [checkedMul_eq_some, product]
        exact ⟨fits, rfl⟩
      · rw [checkedMul_eq_none, product]
        omega

theorem chunkBytes_raw (raw : ¬ cfg.ownerHeaders = true) :
    cfg.chunkBytes slots =
      if cfg.exactBytes slots < 2 ^ 64 then some (cfg.exactBytes slots)
      else none := by
  have least := exactBytes_isLeast slots raw
  obtain ⟨pagePositive, pageLt⟩ := cfg.pageSize_bounds
  unfold chunkBytes
  rw [if_neg raw]
  cases product : checkedMul slots cfg.nodeBytes with
  | none =>
      have large := checkedMul_eq_none.mp product
      rw [if_neg (by have := least.1.2; omega)]
      rfl
  | some nodes =>
      obtain ⟨nodesLt, rfl⟩ := checkedMul_eq_some.mp product
      show checkedRoundToMultipleOf _ _ = _
      cases rounded : checkedRoundToMultipleOf (slots * cfg.nodeBytes)
          cfg.pageSize with
      | some bytes =>
          have same := least.unique
            (checkedRoundToMultipleOf_isLeast pageLt rounded)
          have fits := checkedRoundToMultipleOf_lt nodesLt pageLt rounded
          rw [if_pos (by omega), same]
      | none =>
          have some : 0 < slots * cfg.nodeBytes := by
            by_contra zero
            rw [checkedRoundToMultipleOf_of_dvd pagePositive
              (by simp [Nat.eq_zero_of_not_pos zero])] at rounded
            cases rounded
          have large := (checkedRoundToMultipleOf_eq_none some nodesLt pageLt).mp
            rounded _ least.1.1 least.1.2
          rw [if_neg (by omega)]

theorem chunkBytes_eq (slots : Nat) :
    cfg.chunkBytes slots =
      if cfg.exactBytes slots < 2 ^ 64 then some (cfg.exactBytes slots)
      else none := by
  by_cases headers : cfg.ownerHeaders = true
  · exact chunkBytes_headers headers
  · exact chunkBytes_raw headers

end Config

section Constructor

variable {cfg : Config} {s : State} {heap : Heap} {slots : Nat}

/-- A size that is no word is refused before there is any allocation. -/
theorem constructChunk_large (large : 2 ^ 64 ≤ cfg.exactBytes slots) :
    s.constructChunk cfg heap slots = (s, .error .badArrayNewLength) := by
  unfold State.constructChunk
  rw [Config.chunkBytes_eq, if_neg (by omega)]

theorem constructChunk_refused (fits : cfg.exactBytes slots < 2 ^ 64)
    (refused : heap.grant (cfg.exactBytes slots) cfg.chunkAlign = none) :
    s.constructChunk cfg heap slots = (s, .error .refused) := by
  unfold State.constructChunk
  rw [Config.chunkBytes_eq, if_pos fits]
  dsimp only
  rw [refused]

theorem constructChunk_served (fits : cfg.exactBytes slots < 2 ^ 64) {base : Nat}
    (granted : heap.grant (cfg.exactBytes slots) cfg.chunkAlign = some base) :
    (s.constructChunk cfg heap slots).2 = .ok ⟨slots, cfg.chunkAlign, base⟩ := by
  unfold State.constructChunk
  rw [Config.chunkBytes_eq, if_pos fits]
  dsimp only
  rw [granted]
  dsimp only
  split <;> rfl

theorem constructChunk_badArrayNewLength :
    (s.constructChunk cfg heap slots).2 = .error .badArrayNewLength ↔
      2 ^ 64 ≤ cfg.exactBytes slots := by
  constructor
  · intro thrown
    by_contra small
    have fits := Nat.lt_of_not_le small
    cases granted : heap.grant (cfg.exactBytes slots) cfg.chunkAlign with
    | none =>
        rw [constructChunk_refused fits granted] at thrown
        cases thrown
    | some base =>
        rw [constructChunk_served fits granted] at thrown
        cases thrown
  · intro large
    rw [constructChunk_large large]

end Constructor

/-- What `contains` and `stamp_owner` compute of a chunk: neither the sum nor the
product wraps, and they are the granules and the size of the chunk. -/
structure Chunk.Recounted (cfg : Config) (chunk : Chunk) : Prop where
  sum : chunk.count + cfg.nodesPerGranule chunk.allocAlign < 2 ^ 64
  granules : chunk.granuleCount cfg =
    chunk.count ⌈/⌉ cfg.nodesPerGranule chunk.allocAlign
  product : chunk.granuleCount cfg * chunk.allocAlign < 2 ^ 64
  total : chunk.granuleCount cfg * chunk.allocAlign = cfg.exactBytes chunk.count

section Recounted

variable {cfg : Config} {chunk : Chunk} (headers : cfg.ownerHeaders = true)

include headers

theorem Chunk.Placed.recounted (placed : chunk.Placed cfg) :
    chunk.Recounted cfg where
  sum := by
    rw [(placed.granule headers).1]
    exact Chunk.count_bounded placed headers
  granules := by
    rw [(placed.granule headers).1]
    exact Chunk.granuleCount_eq placed headers
  product := by
    rw [Chunk.granuleCount_mul placed headers]
    exact Chunk.bytes_lt placed
  total := by
    rw [Chunk.granuleCount_mul placed headers, Config.exactBytes_headers headers]
    exact if_pos headers

theorem Laid.recounted {chunks : List Chunk} (laid : Laid cfg chunks)
    (member : chunk ∈ chunks) (nonnull : chunk.nodes ≠ 0) :
    chunk.Recounted cfg := by
  rcases laid.placed chunk member with rfl | placed
  · exact absurd rfl nonnull
  · exact placed.recounted headers

theorem sessions_recounted {slots : Nat} {deferred : Bool} {session : Session}
    (reachable : (sessions cfg slots deferred).Reachable session)
    (member : chunk ∈ session.state.chunks) (nonnull : chunk.nodes ≠ 0) :
    chunk.Recounted cfg := by
  obtain ⟨free, parked, ok⟩ := sessions_inductive.reachable reachable
  exact ok.balanced.laid.recounted headers member nonnull

end Recounted

section Construction

variable {cfg : Config} {heap : Heap} {mem : Nat → Nat} {slots : Nat} {pool : State}

theorem Config.values_le (cfg : Config) (slots : Nat) :
    slots * cfg.sizeT ≤ cfg.exactBytes slots := by
  have values := Nat.mul_le_mul_left slots cfg.nodeBytes_spec.1
  refine values.trans ?_
  by_cases headers : cfg.ownerHeaders = true
  · obtain ⟨positive, room⟩ := cfg.nodesPerGranule_spec
    unfold exactBytes
    rw [if_pos headers]
    have covers : slots ≤ cfg.nodesPerGranule cfg.granule *
        (slots ⌈/⌉ cfg.nodesPerGranule cfg.granule) := le_smul_ceilDiv positive
    generalize slots ⌈/⌉ cfg.nodesPerGranule cfg.granule = granules at covers ⊢
    generalize cfg.nodesPerGranule cfg.granule = perGranule at covers room
    calc
      slots * cfg.nodeBytes ≤ perGranule * granules * cfg.nodeBytes :=
        Nat.mul_le_mul_right _ covers
      _ = granules * (perGranule * cfg.nodeBytes) := by ring
      _ ≤ granules * cfg.granule := Nat.mul_le_mul_left _ (by omega)
  · exact (exactBytes_isLeast slots headers).1.2

/-- The size of all values of an eagerly constructed pool is a word. -/
theorem construct_bounded
    (constructed : State.construct cfg heap mem slots = .ok pool) :
    slots * cfg.sizeT < 2 ^ 64 := by
  apply (cfg.values_le slots).trans_lt
  by_contra small
  have large := Nat.le_of_not_lt small
  unfold State.construct State.addChunk at constructed
  rw [constructChunk_large large] at constructed
  split at constructed <;> cases constructed

end Construction

end Pool

end Allocazam
