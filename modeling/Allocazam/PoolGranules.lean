import Allocazam.PoolOwnership
import Allocazam.PoolSafety

/-!
# Granules

In a chunk with owner headers the places of the nodes, the ownership test and the
routing mask agree: `contains` accepts exactly the nodes, and masking a byte of a
node leads to the stamped header of its granule.
-/

namespace Allocazam

namespace Pool

variable {cfg : Config} {chunk : Chunk} {target : Nat} {s t : State} {heap : Heap}
  {slots : Nat}

namespace Chunk

section Headers

variable (placed : chunk.Placed cfg) (headers : cfg.ownerHeaders = true)

include placed headers

theorem nodeAt_slot {granule slot : Nat}
    (inGranule : slot < cfg.nodesPerGranule cfg.granule) :
    chunk.nodeAt cfg (granule * cfg.nodesPerGranule cfg.granule + slot) =
      chunk.nodes + granule * cfg.granule + cfg.headerOffset +
        slot * cfg.nodeBytes := by
  have positive := cfg.nodesPerGranule_spec.1
  rw [nodeAt_headers placed headers, Nat.mul_comm granule, Nat.mul_add_div positive,
    Nat.mul_add_mod, Nat.div_eq_of_lt inGranule, Nat.mod_eq_of_lt inGranule,
    Nat.add_zero]

theorem nodeAt_of_contains (contained : chunk.contains cfg target = true) :
    ∃ i < chunk.count, target = chunk.nodeAt cfg i := by
  have inRange := range_of_contains placed contained
  unfold contains at contained
  dsimp only at contained
  rw [if_neg (by have := placed.positive; omega), if_pos headers,
    (placed.granule headers).1] at contained
  split at contained
  · contradiction
  generalize delta : target - chunk.nodes = distance at contained
  split at contained
  · contradiction
  rename_i inside
  split at contained
  · contradiction
  rename_i slot
  rw [not_or, not_lt, not_not] at inside
  obtain ⟨behind, whole⟩ := inside
  refine ⟨_, of_decide_eq_true contained, ?_⟩
  rw [nodeAt_slot placed headers (Nat.lt_of_not_le slot)]
  have offset := Nat.div_mul_cancel (Nat.dvd_of_mod_eq_zero whole)
  have split := Nat.div_add_mod distance cfg.granule
  rw [Nat.mul_comm] at split
  have lower : chunk.nodes ≤ target := inRange.1
  omega

theorem contains_iff : chunk.contains cfg target = true ↔
    ∃ i < chunk.count, target = chunk.nodeAt cfg i := by
  constructor
  · exact nodeAt_of_contains placed headers
  · rintro ⟨i, inside, rfl⟩
    exact contains_nodeAt_headers placed headers inside

theorem nodeAt_apart_header (i granule : Nat) :
    chunk.nodeAt cfg i + cfg.nodeBytes ≤ chunk.nodes + granule * cfg.granule ∨
      chunk.nodes + granule * cfg.granule + granuleHeaderBytes ≤
        chunk.nodeAt cfg i := by
  have slot := @slot_le cfg i
  have wide := cfg.headerOffset_spec.1
  have header : granuleHeaderBytes = 16 := rfl
  rw [nodeAt_headers placed headers]
  rcases Nat.lt_or_ge (i / cfg.nodesPerGranule cfg.granule) granule with
    before | notBefore
  · left
    have granules := Nat.mul_le_mul_right cfg.granule (Nat.succ_le_of_lt before)
    rw [Nat.succ_mul] at granules
    omega
  · right
    have granules := Nat.mul_le_mul_right cfg.granule notBefore
    omega

omit placed in
theorem granule_of_node {i : Nat} (inside : i < chunk.count) :
    (i / cfg.nodesPerGranule cfg.granule + 1) * cfg.granule ≤ chunk.bytes cfg := by
  have positive := cfg.nodesPerGranule_spec.1
  rw [granule_inside headers, Nat.lt_iff_add_one_le, Nat.le_div_iff_mul_le positive,
    Nat.succ_mul]
  have := Nat.div_mul_le_self i (cfg.nodesPerGranule cfg.granule)
  omega

end Headers

end Chunk

theorem constructChunk_granted
    (built : s.constructChunk cfg heap slots = (t, .ok chunk)) :
    ∃ bytes, cfg.chunkBytes slots = some bytes ∧
      heap.grant bytes cfg.chunkAlign = some chunk.nodes ∧
      chunk.bytes cfg ≤ bytes ∧ chunk.allocAlign = cfg.chunkAlign := by
  unfold State.constructChunk at built
  cases bytesEq : cfg.chunkBytes slots with
  | none =>
      rw [bytesEq] at built
      cases built
  | some bytes =>
      rw [bytesEq] at built
      dsimp only at built
      cases baseEq : heap.grant bytes cfg.chunkAlign with
      | none =>
          rw [baseEq] at built
          cases built
      | some base =>
          rw [baseEq] at built
          have same : chunk = ⟨slots, cfg.chunkAlign, base⟩ := by
            dsimp only at built
            split at built
            · exact (Except.ok.inj (Prod.mk.inj built).2).symm
            · exact (Except.ok.inj (Prod.mk.inj built).2).symm
          subst same
          exact ⟨bytes, rfl, baseEq, (cfg.chunkBytes_spec bytesEq base
            cfg.chunkAlign).1, rfl⟩

theorem constructChunk_fresh
    (built : s.constructChunk cfg heap slots = (t, .ok chunk)) :
    Fresh cfg heap slots chunk := by
  rcases constructChunk_spec cfg s heap slots with ⟨_, exn, failed⟩ |
    ⟨made, mem, succeeded, fresh, _⟩
  · rw [failed] at built
    cases built
  · rw [succeeded] at built
    obtain rfl := Except.ok.inj (Prod.mk.inj built).2
    exact fresh

/-- The layout of a chunk with owner headers: disjoint aligned nodes between the
headers, a mask that finds the stamped header of every node, and an ownership test
that accepts the nodes only. -/
theorem granuleLayout_exact (headers : cfg.ownerHeaders = true)
    (built : s.constructChunk cfg heap slots = (t, .ok chunk)) :
    ∃ bytes, cfg.chunkBytes slots = some bytes ∧
      heap.grant bytes cfg.granule = some chunk.nodes ∧ chunk.count = slots ∧
      (∀ i j, i < slots → j < slots → i ≠ j →
        chunk.nodeAt cfg i + cfg.nodeBytes ≤ chunk.nodeAt cfg j ∨
          chunk.nodeAt cfg j + cfg.nodeBytes ≤ chunk.nodeAt cfg i) ∧
      (∀ i < slots, cfg.nodeAlignment ∣ chunk.nodeAt cfg i ∧
        chunk.nodes ≤ chunk.nodeAt cfg i ∧
        chunk.nodeAt cfg i + cfg.nodeBytes ≤ chunk.nodes + bytes ∧
        (∀ granule, chunk.nodeAt cfg i + cfg.nodeBytes ≤
            chunk.nodes + granule * cfg.granule ∨
          chunk.nodes + granule * cfg.granule + granuleHeaderBytes ≤
            chunk.nodeAt cfg i) ∧
        ∀ byte < cfg.nodeBytes,
          let base := (chunk.nodeAt cfg i + byte) &&& wordNot (cfg.granule - 1)
          base ≤ chunk.nodeAt cfg i + byte ∧
            chunk.nodeAt cfg i + byte < base + cfg.granule ∧
            (∃ granule, base = chunk.nodes + granule * cfg.granule ∧
              base + cfg.granule ≤ chunk.nodes + bytes) ∧
            (t.stampOwner cfg chunk).mem base = cfg.self) ∧
      ∀ target, chunk.contains cfg target = true ↔
        ∃ i < slots, target = chunk.nodeAt cfg i := by
  obtain ⟨bytes, bytesEq, granted, covers, _⟩ := constructChunk_granted built
  have fresh := constructChunk_fresh built
  have placed := fresh.placed
  have countEq := fresh.count
  obtain ⟨mem, stamped, _, owners⟩ := stampOwner_spec (s := t) headers fresh
  have alignEq : cfg.chunkAlign = cfg.granule := if_pos headers
  rw [alignEq] at granted
  refine ⟨bytes, bytesEq, granted, countEq, fun i j _ _ different => ?_,
    fun i inside => ?_, fun target => ?_⟩
  · rcases Nat.lt_or_gt_of_ne different with before | after
    · exact Or.inl (Chunk.nodeAt_lt placed before)
    · exact Or.inr (Chunk.nodeAt_lt placed after)
  · rw [← countEq] at inside
    obtain ⟨lower, upper⟩ := Chunk.nodeAt_bounds placed inside
    refine ⟨Chunk.nodeAt_dvd placed i, lower, by omega,
      Chunk.nodeAt_apart_header placed headers i, fun byte inNode => ?_⟩
    dsimp only
    rw [Chunk.nodeAt_mask placed headers inside byte inNode]
    have granule := Chunk.granule_of_node headers inside
    have slot := @Chunk.slot_le cfg i
    have place := Chunk.nodeAt_headers placed headers i
    refine ⟨by omega, by omega, ⟨_, rfl, ?_⟩, ?_⟩
    · rw [Nat.succ_mul] at granule
      omega
    · rw [stamped]
      exact owners _ granule
  · rw [← countEq]
    exact Chunk.contains_iff placed headers

theorem headerPool_layout :
    let chunk : Chunk := ⟨3, 4096, 65536⟩
    chunk.nodeAt headerPool 2 = 65696 ∧
      ∀ target, chunk.contains headerPool target = true ↔
        ∃ i < 3, target = chunk.nodeAt headerPool i := by
  have built : (State.blank headerPool (fun _ => 0) 1).constructChunk headerPool
      onePage 3 = (((State.blank headerPool (fun _ => 0) 1).constructChunk
        headerPool onePage 3).1, .ok ⟨3, 4096, 65536⟩) := Prod.ext rfl rfl
  obtain ⟨_, _, _, _, _, _, contained⟩ := granuleLayout_exact rfl built
  exact ⟨by decide, contained⟩

end Pool

end Allocazam
