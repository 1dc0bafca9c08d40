import Allocazam.IntrusiveList
import Allocazam.PoolModel
import Mathlib.Order.CompletePartialOrder
import Mathlib.Order.Interval.Finset.Nat

/-!
# The invariant of a pool

The chunks lie on memory of their own, each granule header holds the address of
the pool, the free list threads through nodes of the chunks, and the counters
agree with both.
-/

namespace Allocazam

namespace Pool

/-- The addresses of the node `n`. -/
def Config.nodeRange (cfg : Config) (n : Nat) : Set Nat :=
  {addr | n ≤ addr ∧ addr < n + cfg.nodeBytes}

theorem Config.self_mem_nodeRange (cfg : Config) (n : Nat) :
    n ∈ cfg.nodeRange n := by
  have positive := cfg.nodeBytes_spec.2
  exact ⟨le_rfl, by omega⟩

namespace Chunk

variable {cfg : Config} {chunk other : Chunk}

def range (cfg : Config) (chunk : Chunk) : Set Nat :=
  {addr | chunk.nodes ≤ addr ∧ addr < chunk.nodes + chunk.bytes cfg}

theorem mem_list {n : Nat} :
    n ∈ chunk.list cfg ↔ ∃ i < chunk.count, chunk.nodeAt cfg i = n := by
  simp [list]

@[simp]
theorem length_list : (chunk.list cfg).length = chunk.count := by
  simp [list]

@[simp]
theorem list_empty : (empty cfg).list cfg = [] :=
  rfl

theorem list_nodup (placed : chunk.Placed cfg) : (chunk.list cfg).Nodup := by
  apply List.Nodup.map
  · intro i j same
    exact nodeAt_injective placed same
  · exact List.nodup_range

theorem nodeRange_subset (placed : chunk.Placed cfg) {n : Nat}
    (listed : n ∈ chunk.list cfg) : cfg.nodeRange n ⊆ chunk.range cfg := by
  obtain ⟨i, inside, rfl⟩ := mem_list.mp listed
  have bounds := nodeAt_bounds placed inside
  intro addr inNode
  exact ⟨bounds.1.trans inNode.1, inNode.2.trans_le bounds.2⟩

theorem nodes_apart (placed : chunk.Placed cfg) {n m : Nat}
    (nListed : n ∈ chunk.list cfg) (mListed : m ∈ chunk.list cfg)
    (distinct : n ≠ m) : Disjoint (cfg.nodeRange n) (cfg.nodeRange m) := by
  obtain ⟨i, _, rfl⟩ := mem_list.mp nListed
  obtain ⟨j, _, rfl⟩ := mem_list.mp mListed
  apply Set.disjoint_left.mpr
  rintro addr ⟨iLow, iHigh⟩ ⟨jLow, jHigh⟩
  rcases Nat.lt_trichotomy i j with before | rfl | after
  · have := nodeAt_lt placed before
    omega
  · exact distinct rfl
  · have := nodeAt_lt placed after
    omega

theorem range_empty : (empty cfg).range cfg = ∅ := by
  have none : (empty cfg).bytes cfg = 0 := by
    unfold bytes
    split
    · have positive := cfg.nodesPerGranule_spec.1
      have : ((empty cfg).count + cfg.nodesPerGranule cfg.granule - 1) /
          cfg.nodesPerGranule cfg.granule = 0 :=
        Nat.div_eq_of_lt (by simp only [empty]; omega)
      rw [this, Nat.zero_mul]
    · exact Nat.zero_mul _
  apply Set.eq_empty_of_forall_notMem
  rintro addr ⟨low, high⟩
  rw [none] at high
  omega

end Chunk

/-- Chunks on disjoint memory.  A pool that has not allocated yet may hold an
empty one. -/
structure Laid (cfg : Config) (chunks : List Chunk) : Prop where
  placed : ∀ chunk ∈ chunks, chunk = Chunk.empty cfg ∨ chunk.Placed cfg
  apart : chunks.Pairwise fun chunk other =>
    Disjoint (chunk.range cfg) (other.range cfg)

namespace Members

variable (cfg : Config) (m : Members)

def nodes : List Nat :=
  m.chunks.flatMap (Chunk.list cfg)

def footprint : Set Nat :=
  {addr | ∃ chunk ∈ m.chunks, addr ∈ chunk.range cfg}

end Members

section Laid

variable {cfg : Config} {m : Members}

theorem mem_nodes {n : Nat} :
    n ∈ m.nodes cfg ↔ ∃ chunk ∈ m.chunks, n ∈ chunk.list cfg :=
  List.mem_flatMap

namespace Laid

variable (laid : Laid cfg m.chunks)

include laid

/-- A node lies in a chunk that is not empty. -/
theorem chunk_of_node {n : Nat} (node : n ∈ m.nodes cfg) :
    ∃ chunk ∈ m.chunks, chunk.Placed cfg ∧ n ∈ chunk.list cfg := by
  obtain ⟨chunk, member, listed⟩ := mem_nodes.mp node
  rcases laid.placed chunk member with rfl | placed
  · simp at listed
  · exact ⟨chunk, member, placed, listed⟩

theorem nodeRange_subset {n : Nat} (node : n ∈ m.nodes cfg) :
    cfg.nodeRange n ⊆ m.footprint cfg := by
  obtain ⟨chunk, member, placed, listed⟩ := laid.chunk_of_node node
  intro addr inNode
  exact ⟨chunk, member, Chunk.nodeRange_subset placed listed inNode⟩

theorem disjoint_of_ne {chunk other : Chunk} (member : chunk ∈ m.chunks)
    (otherMember : other ∈ m.chunks) (distinct : chunk ≠ other) :
    Disjoint (chunk.range cfg) (other.range cfg) := by
  have symmetric : Std.Symm fun chunk other : Chunk =>
      Disjoint (chunk.range cfg) (other.range cfg) :=
    ⟨fun _ _ disjoint => disjoint.symm⟩
  exact laid.apart.forall member otherMember distinct

theorem nodes_apart {n n' : Nat} (node : n ∈ m.nodes cfg)
    (node' : n' ∈ m.nodes cfg) (distinct : n ≠ n') :
    Disjoint (cfg.nodeRange n) (cfg.nodeRange n') := by
  obtain ⟨chunk, member, placed, listed⟩ := laid.chunk_of_node node
  obtain ⟨other, otherMember, otherPlaced, otherListed⟩ :=
    laid.chunk_of_node node'
  by_cases same : chunk = other
  · subst same
    exact Chunk.nodes_apart placed listed otherListed distinct
  · exact (laid.disjoint_of_ne member otherMember same).mono
      (Chunk.nodeRange_subset placed listed)
      (Chunk.nodeRange_subset otherPlaced otherListed)

theorem node_bounds {n : Nat} (node : n ∈ m.nodes cfg) :
    0 < n ∧ n + cfg.nodeBytes ≤ 2 ^ 64 := by
  obtain ⟨chunk, member, placed, listed⟩ := laid.chunk_of_node node
  obtain ⟨i, inside, rfl⟩ := Chunk.mem_list.mp listed
  have bounds := Chunk.nodeAt_bounds placed inside
  have positive := placed.positive
  have bounded := placed.bounded
  omega

theorem nodes_nodup : (m.nodes cfg).Nodup := by
  apply List.nodup_flatMap.mpr
  constructor
  · intro chunk member
    rcases laid.placed chunk member with rfl | placed
    · exact List.nodup_nil
    · exact Chunk.list_nodup placed
  · apply laid.apart.imp_of_mem
    intro chunk other member otherMember disjoint n listed otherListed
    rcases laid.placed chunk member with rfl | placed
    · simp at listed
    rcases laid.placed other otherMember with rfl | otherPlaced
    · simp at otherListed
    have inNode := cfg.self_mem_nodeRange n
    exact Set.disjoint_left.mp disjoint
      (Chunk.nodeRange_subset placed listed inNode)
      (Chunk.nodeRange_subset otherPlaced otherListed inNode)

theorem header_apart (headers : cfg.ownerHeaders = true) {n : Nat}
    (node : n ∈ m.nodes cfg) {chunk : Chunk} (member : chunk ∈ m.chunks)
    {granule : Nat} (inside : (granule + 1) * cfg.granule ≤ chunk.bytes cfg) :
    chunk.nodes + granule * cfg.granule ∉ cfg.nodeRange n := by
  intro inNode
  obtain ⟨own, ownMember, placed, listed⟩ := laid.chunk_of_node node
  by_cases same : own = chunk
  · subst same
    obtain ⟨i, _, rfl⟩ := Chunk.mem_list.mp listed
    obtain ⟨low, high⟩ := inNode
    have apart := Chunk.nodeAt_header_apart placed headers i granule
      (own.nodes + granule * cfg.granule - own.nodeAt cfg i) 0 (by omega)
      (by omega)
    omega
  · have positive := cfg.granule_spec.2
    have room := cfg.nodeBytes_spec.2
    rw [Nat.succ_mul] at inside
    exact Set.disjoint_left.mp (laid.disjoint_of_ne ownMember member same)
      (Chunk.nodeRange_subset placed listed inNode) ⟨by omega, by omega⟩

theorem length_nodes_lt : (m.nodes cfg).length < 2 ^ 64 := by
  have counted := List.toFinset_card_of_nodup laid.nodes_nodup
  have within : (m.nodes cfg).toFinset ⊆ Finset.Ioo 0 (2 ^ 64) := by
    intro n member
    have bounds := laid.node_bounds (List.mem_toFinset.mp member)
    have positive := cfg.nodeBytes_spec.2
    exact Finset.mem_Ioo.mpr ⟨bounds.1, by omega⟩
  have bound := Finset.card_le_card within
  rw [counted, Nat.card_Ioo] at bound
  omega

end Laid

end Laid

/-- A pool whose free list holds the nodes `free`. -/
structure Ok (cfg : Config) (s : State) (free : List Nat) : Prop where
  laid : Laid cfg s.chunks
  /-- The headers of all granules lead to the pool. -/
  stamped : cfg.ownerHeaders = true → ∀ chunk ∈ s.chunks, ∀ granule,
    (granule + 1) * cfg.granule ≤ chunk.bytes cfg →
      s.mem (chunk.nodes + granule * cfg.granule) = cfg.self
  capacity : s.capacity = (s.nodes cfg).length
  stack : IsStack s.mem s.freeHead free
  listed : ∀ n ∈ free, n ∈ s.nodes cfg
  size : s.size + free.length = s.capacity

/-- The words the invariant reads: the links of the listed nodes and the granule
headers. -/
def State.ReadBy (cfg : Config) (s : State) (free : List Nat) (addr : Nat) :
    Prop :=
  addr ∈ free ∨ cfg.ownerHeaders = true ∧ ∃ chunk ∈ s.chunks, ∃ granule,
    (granule + 1) * cfg.granule ≤ chunk.bytes cfg ∧
      addr = chunk.nodes + granule * cfg.granule

namespace Ok

variable {cfg : Config} {s t : State} {free : List Nat} {n : Nat}

theorem free_nodup (ok : Ok cfg s free) : free.Nodup :=
  ok.stack.nodup

theorem capacity_lt (ok : Ok cfg s free) : s.capacity < 2 ^ 64 := by
  rw [ok.capacity]
  exact ok.laid.length_nodes_lt

theorem congr (ok : Ok cfg s free) (members : t.toMembers = s.toMembers)
    (agrees : ∀ addr, s.ReadBy cfg free addr → t.mem addr = s.mem addr) :
    Ok cfg t free where
  laid := by
    rw [members]
    exact ok.laid
  stamped headers chunk member granule inside := by
    rw [members] at member
    rw [agrees _ (Or.inr ⟨headers, chunk, member, granule, inside, rfl⟩)]
    exact ok.stamped headers chunk member granule inside
  capacity := by
    rw [members]
    exact ok.capacity
  stack := by
    rw [members]
    exact ok.stack.congr fun n member => agrees n (Or.inl member)
  listed := by
    rw [members]
    exact ok.listed
  size := by
    rw [members]
    exact ok.size

/-- Changes of the remote head and of the growth step do not matter. -/
theorem withMembers (ok : Ok cfg s free) (nextGrowth remoteHead : Nat) :
    Ok cfg { s with nextGrowth, remoteHead } free where
  laid := ok.laid
  stamped := ok.stamped
  capacity := ok.capacity
  stack := ok.stack
  listed := ok.listed
  size := ok.size

theorem readBy_footprint (ok : Ok cfg s free) {addr : Nat}
    (read : s.ReadBy cfg free addr) : addr ∈ s.footprint cfg := by
  rcases read with listed | ⟨headers, chunk, member, granule, inside, rfl⟩
  · exact ok.laid.nodeRange_subset (ok.listed _ listed)
      (cfg.self_mem_nodeRange _)
  · refine ⟨chunk, member, Nat.le_add_right _ _, ?_⟩
    have positive := cfg.granule_spec.2
    have node := cfg.nodeBytes_spec.2
    rw [Nat.succ_mul] at inside
    omega

/-- A node outside the free list is not read. -/
theorem not_readBy (ok : Ok cfg s free) (node : n ∈ s.nodes cfg)
    (taken : n ∉ free) {addr : Nat} (inNode : addr ∈ cfg.nodeRange n) :
    ¬ s.ReadBy cfg free addr := by
  rintro (listed | ⟨headers, chunk, member, granule, inside, rfl⟩)
  · have distinct : n ≠ addr := by
      rintro rfl
      exact taken listed
    exact Set.disjoint_left.mp
      (ok.laid.nodes_apart node (ok.listed _ listed) distinct) inNode
      (cfg.self_mem_nodeRange _)
  · exact ok.laid.header_apart headers node member inside inNode

/-- Writes inside a node that is not free keep the invariant. -/
theorem store (ok : Ok cfg s free) (node : n ∈ s.nodes cfg) (taken : n ∉ free)
    {addr : Nat} (inNode : addr ∈ cfg.nodeRange n) (value : Nat) :
    Ok cfg (s.write addr value) free := by
  refine ok.congr (t := s.write addr value) rfl fun word read => ?_
  apply Function.update_of_ne
  rintro rfl
  exact ok.not_readBy node taken inNode read

/-- The mask of a node leads to the pool. -/
theorem header (ok : Ok cfg s free) (headers : cfg.ownerHeaders = true)
    (node : n ∈ s.nodes cfg) : s.mem (n &&& wordNot (cfg.granule - 1)) =
      cfg.self := by
  obtain ⟨chunk, member, placed, listed⟩ := ok.laid.chunk_of_node node
  obtain ⟨i, inside, rfl⟩ := Chunk.mem_list.mp listed
  have masked := Chunk.nodeAt_mask placed headers inside 0
    (by have := cfg.nodeBytes_spec.2; omega)
  rw [Nat.add_zero] at masked
  rw [masked]
  apply ok.stamped headers chunk member
  have bounds := Chunk.nodeAt_bounds placed inside
  rw [Chunk.nodeAt_headers placed headers] at bounds
  unfold Chunk.bytes at bounds ⊢
  rw [if_pos headers] at bounds ⊢
  apply Nat.mul_le_mul_right
  have positive := cfg.nodesPerGranule_spec.1
  rw [Nat.le_div_iff_mul_le positive, Nat.succ_mul]
  have := Nat.div_mul_le_self i (cfg.nodesPerGranule cfg.granule)
  omega

end Ok

end Pool

end Allocazam
