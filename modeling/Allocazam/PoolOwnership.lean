import Allocazam.PoolTerritory

/-!
# The ownership test of a pool

`contains` and `_owns_pointer` compute with addresses only.  They accept every
node of the pool, and nothing outside its chunks.
-/

namespace Allocazam

namespace Pool

variable {cfg : Config} {chunk : Chunk} {target : Nat}

namespace Chunk

/-- A granule has room for its header and for eight bytes a node. -/
theorem nodesPerGranule_le (cfg : Config) :
    16 + 8 * cfg.nodesPerGranule cfg.granule ≤ cfg.granule := by
  have room := cfg.nodesPerGranule_spec.2
  have wide := cfg.headerOffset_spec.1
  have slots := Nat.mul_le_mul_left (cfg.nodesPerGranule cfg.granule)
    cfg.nodeBytes_spec.2
  omega

/-- Granules for this many nodes have room for eight bytes a node. -/
theorem le_granules (cfg : Config) (count : Nat) :
    8 * count ≤ (count + cfg.nodesPerGranule cfg.granule - 1) /
      cfg.nodesPerGranule cfg.granule * cfg.granule := by
  have positive := cfg.nodesPerGranule_spec.1
  have wide := nodesPerGranule_le cfg
  generalize cfg.nodesPerGranule cfg.granule = perGranule at *
  have divided := Nat.div_add_mod (count + perGranule - 1) perGranule
  have remainder : (count + perGranule - 1) % perGranule < perGranule :=
    Nat.mod_lt _ positive
  rw [Nat.mul_comm] at divided
  generalize (count + perGranule - 1) / perGranule = granules at *
  calc
    8 * count ≤ 8 * (granules * perGranule) := by omega
    _ = granules * (8 * perGranule) := by ring
    _ ≤ granules * cfg.granule := Nat.mul_le_mul_left _ (by omega)

section Placed

variable (placed : chunk.Placed cfg)

include placed

theorem bytes_lt : chunk.bytes cfg < 2 ^ 64 := by
  have bounded := placed.bounded
  have positive := placed.positive
  omega

variable (headers : cfg.ownerHeaders = true)

include headers

/-- The sum in `contains` and `stamp_owner` is a word. -/
theorem count_bounded :
    chunk.count + cfg.nodesPerGranule cfg.granule < 2 ^ 64 := by
  have small := bytes_lt placed
  unfold bytes at small
  rw [if_pos headers] at small
  have nodes := le_granules cfg chunk.count
  have slots := nodesPerGranule_le cfg
  obtain ⟨⟨bits, bitsBound, granuleEq⟩, _⟩ := cfg.granule_spec
  have granuleLt : cfg.granule < 2 ^ 64 := by
    rw [granuleEq]
    exact Nat.pow_lt_pow_right (by decide) bitsBound
  omega

theorem granuleCount_eq :
    chunk.granuleCount cfg =
      (chunk.count + cfg.nodesPerGranule cfg.granule - 1) /
        cfg.nodesPerGranule cfg.granule := by
  have bounded := count_bounded placed headers
  unfold granuleCount
  dsimp only
  rw [(placed.granule headers).1,
    wrapSub_wrapAdd_one cfg.nodesPerGranule_spec.1 bounded.le]

theorem granuleCount_mul :
    chunk.granuleCount cfg * chunk.allocAlign = chunk.bytes cfg := by
  rw [granuleCount_eq placed headers, (placed.granule headers).1]
  unfold bytes
  rw [if_pos headers]

theorem totalBytes_eq :
    wrapMul (chunk.granuleCount cfg) chunk.allocAlign = chunk.bytes cfg := by
  have product := granuleCount_mul placed headers
  rw [wrapMul_eq (product.trans_lt (bytes_lt placed)), product]

end Placed

section Headers

variable (placed : chunk.Placed cfg) (headers : cfg.ownerHeaders = true)

include placed headers

theorem nodeAt_delta (i : Nat) :
    (chunk.nodeAt cfg i - chunk.nodes) % cfg.granule =
        cfg.headerOffset + i % cfg.nodesPerGranule cfg.granule * cfg.nodeBytes ∧
      (chunk.nodeAt cfg i - chunk.nodes) / cfg.granule =
        i / cfg.nodesPerGranule cfg.granule := by
  have slot := @slot_le cfg i
  have node := cfg.nodeBytes_spec.2
  have delta : chunk.nodeAt cfg i - chunk.nodes =
      (cfg.headerOffset + i % cfg.nodesPerGranule cfg.granule * cfg.nodeBytes) +
        cfg.granule * (i / cfg.nodesPerGranule cfg.granule) := by
    rw [nodeAt_headers placed headers, Nat.mul_comm cfg.granule]
    omega
  rw [delta, Nat.add_mul_mod_self_left, Nat.add_mul_div_left _ _ (by omega),
    Nat.mod_eq_of_lt (by omega), Nat.div_eq_of_lt (by omega), Nat.zero_add]
  exact ⟨rfl, rfl⟩

theorem contains_nodeAt_headers {i : Nat} (inside : i < chunk.count) :
    chunk.contains cfg (chunk.nodeAt cfg i) = true := by
  have positive := placed.positive
  have bounds := nodeAt_bounds placed inside
  have node := cfg.nodeBytes_spec.2
  have slot := Nat.mod_lt i cfg.nodesPerGranule_spec.1
  obtain ⟨remainder, quotient⟩ := nodeAt_delta placed headers i
  have split := Nat.div_add_mod i (cfg.nodesPerGranule cfg.granule)
  rw [Nat.mul_comm] at split
  unfold contains
  dsimp only
  rw [if_neg (by omega), if_pos headers,
    totalBytes_eq placed headers, if_neg (by omega),
    (placed.granule headers).1, remainder, quotient, Nat.add_sub_cancel_left,
    Nat.mul_mod_left, Nat.mul_div_cancel _ (by omega), if_neg (by omega),
    if_neg (by omega), split]
  exact decide_eq_true inside

end Headers

theorem contains_of_listed (placed : chunk.Placed cfg)
    (listed : target ∈ chunk.list cfg) : chunk.contains cfg target = true := by
  obtain ⟨i, inside, rfl⟩ := mem_list.mp listed
  by_cases headers : cfg.ownerHeaders = true
  · exact contains_nodeAt_headers placed headers inside
  · have positive := placed.positive
    have node := cfg.nodeBytes_spec.2
    have bounds := nodeAt_bounds placed inside
    unfold bytes at bounds
    rw [if_neg headers] at bounds
    unfold contains
    rw [if_neg (by omega), if_neg headers, Bool.and_eq_true]
    exact ⟨decide_eq_true bounds.1, decide_eq_true (by omega)⟩

theorem range_of_contains (placed : chunk.Placed cfg)
    (contained : chunk.contains cfg target = true) :
    target ∈ chunk.range cfg := by
  unfold contains at contained
  rw [if_neg (by have := placed.positive; omega)] at contained
  by_cases headers : cfg.ownerHeaders = true
  · rw [if_pos headers] at contained
    dsimp only at contained
    rw [totalBytes_eq placed headers] at contained
    by_cases outside : target < chunk.nodes ∨
        target ≥ chunk.nodes + chunk.bytes cfg
    · rw [if_pos outside] at contained
      contradiction
    · exact ⟨by omega, by omega⟩
  · rw [if_neg headers, Bool.and_eq_true] at contained
    obtain ⟨lower, upper⟩ := contained
    refine ⟨of_decide_eq_true lower, ?_⟩
    unfold bytes
    rw [if_neg headers]
    exact of_decide_eq_true upper

theorem contains_empty : (empty cfg).contains cfg target = false := by
  rfl

end Chunk

namespace Laid

variable {s : State} (laid : Laid cfg s.chunks)

include laid

theorem owns_of_node (node : target ∈ s.nodes cfg) :
    s.owns cfg target = true := by
  obtain ⟨chunk, member, placed, listed⟩ := laid.chunk_of_node node
  exact List.any_eq_true.mpr
    ⟨chunk, member, Chunk.contains_of_listed placed listed⟩

theorem footprint_of_owns (owned : s.owns cfg target = true) :
    target ∈ s.footprint cfg := by
  obtain ⟨chunk, member, contained⟩ := List.any_eq_true.mp owned
  rcases laid.placed chunk member with rfl | placed
  · rw [Chunk.contains_empty] at contained
    contradiction
  · exact ⟨chunk, member, Chunk.range_of_contains placed contained⟩

end Laid

end Pool

end Allocazam
