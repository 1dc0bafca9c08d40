import Allocazam.SizeArithmetic

/-!
# Nodes and chunks of a pool

`node_t<T>` and `chunk_t<T, owns_memory, OwnerHeaders>`: the places of the nodes
of a chunk.  A chunk without headers is an array of nodes.  A chunk with headers
consists of granules, power-of-two blocks at aligned addresses, each with a
header in front of its nodes, so that masking the address of a node leads to the
header of its granule.
-/

namespace Allocazam

inductive MemoryMode where
  | fixed
  | dynamic
  | noheap
  deriving DecidableEq, Repr

namespace Pool

/-- `sizeof(granule_header)`. -/
abbrev granuleHeaderBytes : Nat := 16
abbrev granuleDebugTag : Nat := 0xa110ca2a6a121e57

/-- `std::bit_ceil`. -/
def bitCeil (value : Nat) : Nat :=
  if value ≤ 1 then 1 else 2 ^ bitWidth (value - 1)

/-- `node_alignment`, from `alignof(T)`. -/
def nodeAlignment (alignT : Nat) : Nat :=
  max alignT 8

/-- `sizeof(node)`, from `sizeof(T)` and `alignof(T)`. -/
def nodeBytes (sizeT alignT : Nat) : Nat :=
  (max sizeT 8 + nodeAlignment alignT - 1) / nodeAlignment alignT *
    nodeAlignment alignT

def headerOffset (alignT : Nat) : Nat :=
  max granuleHeaderBytes (nodeAlignment alignT)

/-- The template arguments of a pool, the page size and the address of the pool
object.  Alignments and pages are powers of two, and `bit_ceil` of a node with
its header is a word. -/
structure Config where
  sizeT : Nat
  alignT : Nat
  mode : MemoryMode
  ownerHeaders : Bool
  pageSize : Nat
  self : Nat
  sizePositive : 0 < sizeT
  alignBits : ∃ bits, alignT = 2 ^ bits
  pageBits : ∃ bits, bits < 64 ∧ pageSize = 2 ^ bits
  nodeBound : nodeBytes sizeT alignT + headerOffset alignT ≤ 2 ^ 63
  headersHeap : ownerHeaders = true → mode ≠ .noheap

namespace Config

variable (cfg : Config)

def nodeBytes : Nat :=
  Pool.nodeBytes cfg.sizeT cfg.alignT

def nodeAlignment : Nat :=
  Pool.nodeAlignment cfg.alignT

def headerOffset : Nat :=
  Pool.headerOffset cfg.alignT

/-- `heap_backed_mode`. -/
def heapBacked : Bool :=
  cfg.mode != .noheap

/-- `fixed_like_mode`. -/
def fixedLike : Bool :=
  cfg.mode != .dynamic

/-- `granule_for(page_size)`. -/
def granule : Nat :=
  max cfg.pageSize (bitCeil (cfg.nodeBytes + cfg.headerOffset))

def nodesPerGranule (granule : Nat) : Nat :=
  (granule - cfg.headerOffset) / cfg.nodeBytes

def pageAllocAlign : Nat :=
  if hasSingleBit cfg.pageSize ∧ cfg.pageSize > cfg.nodeAlignment then
    cfg.pageSize
  else cfg.nodeAlignment

def chunkAlign : Nat :=
  if cfg.ownerHeaders then cfg.granule else cfg.pageAllocAlign

/-- The bytes a chunk of `slots` nodes is allocated with, unless their number is
no word. -/
def chunkBytes (slots : Nat) : Option Nat :=
  if cfg.ownerHeaders then do
    let perGranule := cfg.nodesPerGranule cfg.granule
    let granules ← checkedAdd slots (perGranule - 1)
    checkedMul (granules / perGranule) cfg.granule
  else do
    let bytes ← checkedMul slots cfg.nodeBytes
    checkedRoundToMultipleOf bytes cfg.pageSize

end Config

/-- The members of `chunk_t`. -/
structure Chunk where
  count : Nat
  allocAlign : Nat
  nodes : Nat
  deriving DecidableEq, Repr

namespace Chunk

variable (cfg : Config) (chunk : Chunk)

/-- A default-constructed chunk, and what a move or a release leaves. -/
def empty : Chunk :=
  ⟨0, cfg.nodeAlignment, 0⟩

/-- `at`. -/
def nodeAt (i : Nat) : Nat :=
  if cfg.ownerHeaders then
    let perGranule := cfg.nodesPerGranule chunk.allocAlign
    chunk.nodes + i / perGranule * chunk.allocAlign + cfg.headerOffset +
      i % perGranule * cfg.nodeBytes
  else chunk.nodes + i * cfg.nodeBytes

/-- The granule count as `contains` and `stamp_owner` compute it. -/
def granuleCount : Nat :=
  let perGranule := cfg.nodesPerGranule chunk.allocAlign
  wrapSub (wrapAdd chunk.count perGranule) 1 / perGranule

def contains (target : Nat) : Bool :=
  if chunk.nodes = 0 then false
  else if cfg.ownerHeaders then
    let granule := chunk.allocAlign
    let perGranule := cfg.nodesPerGranule granule
    let totalBytes := wrapMul (chunk.granuleCount cfg) granule
    if target < chunk.nodes ∨ target ≥ chunk.nodes + totalBytes then false
    else
      let delta := target - chunk.nodes
      let offset := delta % granule
      if offset < cfg.headerOffset ∨
          (offset - cfg.headerOffset) % cfg.nodeBytes ≠ 0 then false
      else
        let idx := (offset - cfg.headerOffset) / cfg.nodeBytes
        if idx ≥ perGranule then false
        else delta / granule * perGranule + idx < chunk.count
  else
    chunk.nodes ≤ target && target < chunk.nodes + chunk.count * cfg.nodeBytes

/-- All nodes, in the order of `at`. -/
def list : List Nat :=
  (List.range chunk.count).map (chunk.nodeAt cfg)

end Chunk

section Geometry

variable (cfg : Config)

theorem le_bitCeil (value : Nat) : value ≤ bitCeil value := by
  unfold bitCeil
  split
  · omega
  · have := lt_two_pow_bitWidth (value - 1)
    omega

theorem bitCeil_bits {value : Nat} (bounded : value ≤ 2 ^ 63) :
    ∃ bits, bits < 64 ∧ bitCeil value = 2 ^ bits := by
  unfold bitCeil
  split
  · exact ⟨0, by decide, rfl⟩
  · exact ⟨_, Nat.lt_succ_of_le (bitWidth_le_of_lt (by omega)), rfl⟩

namespace Config

theorem nodeAlignment_bits : ∃ bits, cfg.nodeAlignment = 2 ^ bits := by
  obtain ⟨bits, alignEq⟩ := cfg.alignBits
  unfold nodeAlignment Pool.nodeAlignment
  rw [alignEq]
  rcases Nat.le_total bits 3 with small | large
  · exact ⟨3, max_eq_right
      (Nat.pow_le_pow_right (by decide) small : 2 ^ bits ≤ 2 ^ 3)⟩
  · exact ⟨bits, max_eq_left
      (Nat.pow_le_pow_right (by decide) large : 2 ^ 3 ≤ 2 ^ bits)⟩

theorem nodeAlignment_ge : 8 ≤ cfg.nodeAlignment :=
  le_max_right _ _

theorem nodeBytes_dvd : cfg.nodeAlignment ∣ cfg.nodeBytes :=
  Dvd.intro_left _ rfl

theorem nodeBytes_spec : cfg.sizeT ≤ cfg.nodeBytes ∧ 8 ≤ cfg.nodeBytes := by
  have positive := cfg.nodeAlignment_ge
  have covers : max cfg.sizeT 8 ≤ cfg.nodeBytes := by
    show max cfg.sizeT 8 ≤ (max cfg.sizeT 8 + cfg.nodeAlignment - 1) /
      cfg.nodeAlignment * cfg.nodeAlignment
    generalize cfg.nodeAlignment = unit at positive
    generalize max cfg.sizeT 8 = size
    have divided := Nat.div_add_mod (size + unit - 1) unit
    have remainder : (size + unit - 1) % unit < unit :=
      Nat.mod_lt _ (by omega)
    rw [Nat.mul_comm]
    omega
  omega

theorem headerOffset_spec : 16 ≤ cfg.headerOffset ∧
    cfg.nodeAlignment ∣ cfg.headerOffset := by
  refine ⟨le_max_left _ _, ?_⟩
  obtain ⟨bits, alignEq⟩ := cfg.nodeAlignment_bits
  have offsetEq : cfg.headerOffset = max 16 cfg.nodeAlignment := rfl
  rw [offsetEq, alignEq]
  rcases Nat.le_total bits 4 with small | large
  · rw [max_eq_left (Nat.pow_le_pow_right (by decide) small : 2 ^ bits ≤ 2 ^ 4)]
    exact Nat.pow_dvd_pow 2 small
  · rw [max_eq_right (Nat.pow_le_pow_right (by decide) large : 2 ^ 4 ≤ 2 ^ bits)]

/-- A granule is a power of two with room for a header and a node. -/
theorem granule_spec : (∃ bits, bits < 64 ∧ cfg.granule = 2 ^ bits) ∧
    cfg.nodeBytes + cfg.headerOffset ≤ cfg.granule := by
  obtain ⟨pageBits, pageBound, pageEq⟩ := cfg.pageBits
  obtain ⟨ceilBits, ceilBound, ceilEq⟩ := bitCeil_bits cfg.nodeBound
  have ceilEq' : bitCeil (cfg.nodeBytes + cfg.headerOffset) = 2 ^ ceilBits :=
    ceilEq
  have covers := le_bitCeil (cfg.nodeBytes + cfg.headerOffset)
  unfold granule
  refine ⟨?_, covers.trans (le_max_right _ _)⟩
  rw [pageEq, ceilEq']
  rcases Nat.le_total pageBits ceilBits with ordered | ordered
  · exact ⟨ceilBits, ceilBound,
      max_eq_right (Nat.pow_le_pow_right (by decide) ordered)⟩
  · exact ⟨pageBits, pageBound,
      max_eq_left (Nat.pow_le_pow_right (by decide) ordered)⟩

theorem granule_dvd : cfg.nodeAlignment ∣ cfg.granule := by
  obtain ⟨⟨bits, _, granuleEq⟩, covers⟩ := cfg.granule_spec
  obtain ⟨alignBits, alignEq⟩ := cfg.nodeAlignment_bits
  have offset := Nat.le_of_dvd
    (by have := cfg.headerOffset_spec.1; omega) cfg.headerOffset_spec.2
  rw [alignEq] at offset ⊢
  rw [granuleEq] at covers ⊢
  have ordered : 2 ^ alignBits ≤ 2 ^ bits := by omega
  exact Nat.pow_dvd_pow 2
    ((Nat.pow_le_pow_iff_right (by decide : 1 < 2)).mp ordered)

theorem nodesPerGranule_spec : 0 < cfg.nodesPerGranule cfg.granule ∧
    cfg.headerOffset + cfg.nodesPerGranule cfg.granule * cfg.nodeBytes ≤
      cfg.granule := by
  have covers := cfg.granule_spec.2
  have positive := cfg.nodeBytes_spec.2
  unfold nodesPerGranule
  constructor
  · exact Nat.div_pos (by omega) (by omega)
  · have := Nat.div_mul_le_self (cfg.granule - cfg.headerOffset) cfg.nodeBytes
    omega

end Config

namespace Chunk

/-- The bytes from the start of a chunk to the end of its last granule or
node. -/
def bytes (chunk : Chunk) : Nat :=
  if cfg.ownerHeaders then
    (chunk.count + cfg.nodesPerGranule cfg.granule - 1) /
      cfg.nodesPerGranule cfg.granule * cfg.granule
  else chunk.count * cfg.nodeBytes

/-- A chunk on memory of its own. -/
structure Placed (chunk : Chunk) : Prop where
  granule : cfg.ownerHeaders = true →
    chunk.allocAlign = cfg.granule ∧ cfg.granule ∣ chunk.nodes
  aligned : cfg.nodeAlignment ∣ chunk.nodes
  positive : 0 < chunk.nodes
  bounded : chunk.nodes + chunk.bytes cfg ≤ 2 ^ 64

variable {cfg} {chunk : Chunk} (placed : chunk.Placed cfg)

include placed

theorem nodeAt_headers (headers : cfg.ownerHeaders = true) (i : Nat) :
    chunk.nodeAt cfg i = chunk.nodes +
      i / cfg.nodesPerGranule cfg.granule * cfg.granule + cfg.headerOffset +
        i % cfg.nodesPerGranule cfg.granule * cfg.nodeBytes := by
  unfold nodeAt
  rw [if_pos headers, (placed.granule headers).1]

omit placed in
theorem nodeAt_raw (raw : ¬ cfg.ownerHeaders = true) (i : Nat) :
    chunk.nodeAt cfg i = chunk.nodes + i * cfg.nodeBytes := by
  unfold nodeAt
  rw [if_neg raw]

omit placed in
theorem slot_le (i : Nat) : cfg.headerOffset +
    i % cfg.nodesPerGranule cfg.granule * cfg.nodeBytes + cfg.nodeBytes ≤
      cfg.granule := by
  obtain ⟨positive, room⟩ := cfg.nodesPerGranule_spec
  have slot := Nat.mul_le_mul_right cfg.nodeBytes
    (Nat.succ_le_of_lt (Nat.mod_lt i positive))
  rw [Nat.succ_mul] at slot
  omega

theorem nodeAt_lt {i j : Nat} (ordered : i < j) :
    chunk.nodeAt cfg i + cfg.nodeBytes ≤ chunk.nodeAt cfg j := by
  by_cases headers : cfg.ownerHeaders = true
  · rw [nodeAt_headers placed headers, nodeAt_headers placed headers]
    have slot := @slot_le cfg i
    have iSplit := Nat.div_add_mod i (cfg.nodesPerGranule cfg.granule)
    have jSplit := Nat.div_add_mod j (cfg.nodesPerGranule cfg.granule)
    rcases Nat.lt_or_ge (i / cfg.nodesPerGranule cfg.granule)
        (j / cfg.nodesPerGranule cfg.granule) with earlier | notEarlier
    · have granules := Nat.mul_le_mul_right cfg.granule
        (Nat.succ_le_of_lt earlier)
      rw [Nat.succ_mul] at granules
      omega
    · have same : i / cfg.nodesPerGranule cfg.granule =
          j / cfg.nodesPerGranule cfg.granule :=
        le_antisymm (Nat.div_le_div_right ordered.le) notEarlier
      rw [same] at iSplit ⊢
      have slots := Nat.mul_le_mul_right cfg.nodeBytes (show
        i % cfg.nodesPerGranule cfg.granule + 1 ≤
          j % cfg.nodesPerGranule cfg.granule by omega)
      rw [Nat.succ_mul] at slots
      omega
  · rw [nodeAt_raw headers, nodeAt_raw headers]
    have slots := Nat.mul_le_mul_right cfg.nodeBytes (Nat.succ_le_of_lt ordered)
    rw [Nat.succ_mul] at slots
    omega

theorem nodeAt_injective {i j : Nat}
    (same : chunk.nodeAt cfg i = chunk.nodeAt cfg j) : i = j := by
  have positive := cfg.nodeBytes_spec.2
  rcases Nat.lt_trichotomy i j with before | equal | after
  · have := nodeAt_lt placed before
    omega
  · exact equal
  · have := nodeAt_lt placed after
    omega

theorem nodeAt_bounds {i : Nat} (inside : i < chunk.count) :
    chunk.nodes ≤ chunk.nodeAt cfg i ∧
      chunk.nodeAt cfg i + cfg.nodeBytes ≤ chunk.nodes + chunk.bytes cfg := by
  unfold bytes
  by_cases headers : cfg.ownerHeaders = true
  · rw [nodeAt_headers placed headers, if_pos headers]
    have slot := @slot_le cfg i
    have positive := cfg.nodesPerGranule_spec.1
    have earlier : i / cfg.nodesPerGranule cfg.granule + 1 ≤
        (chunk.count + cfg.nodesPerGranule cfg.granule - 1) /
          cfg.nodesPerGranule cfg.granule := by
      rw [Nat.le_div_iff_mul_le positive, Nat.succ_mul]
      have := Nat.div_mul_le_self i (cfg.nodesPerGranule cfg.granule)
      omega
    have granules := Nat.mul_le_mul_right cfg.granule earlier
    rw [Nat.succ_mul] at granules
    omega
  · rw [nodeAt_raw headers, if_neg headers]
    have slots := Nat.mul_le_mul_right cfg.nodeBytes (Nat.succ_le_of_lt inside)
    rw [Nat.succ_mul] at slots
    omega

theorem nodeAt_dvd (i : Nat) : cfg.nodeAlignment ∣ chunk.nodeAt cfg i := by
  have nodeDvd := cfg.nodeBytes_dvd
  by_cases headers : cfg.ownerHeaders = true
  · rw [nodeAt_headers placed headers]
    exact Nat.dvd_add (Nat.dvd_add (Nat.dvd_add placed.aligned
      (Dvd.dvd.mul_left cfg.granule_dvd _)) cfg.headerOffset_spec.2)
        (Dvd.dvd.mul_left nodeDvd _)
  · rw [nodeAt_raw headers]
    exact Nat.dvd_add placed.aligned (Dvd.dvd.mul_left nodeDvd _)

/-- Masking an address inside a node leads to the header of its granule. -/
theorem nodeAt_mask (headers : cfg.ownerHeaders = true) {i : Nat}
    (inside : i < chunk.count) (byte : Nat) (inNode : byte < cfg.nodeBytes) :
    (chunk.nodeAt cfg i + byte) &&& wordNot (cfg.granule - 1) =
      chunk.nodes + i / cfg.nodesPerGranule cfg.granule * cfg.granule := by
  have bounds := nodeAt_bounds placed inside
  have bounded := placed.bounded
  have slot := @slot_le cfg i
  obtain ⟨⟨bits, bitsBound, granuleEq⟩, _⟩ := cfg.granule_spec
  obtain ⟨base, baseEq⟩ := (placed.granule headers).2
  rw [nodeAt_headers placed headers] at bounds ⊢
  generalize i / cfg.nodesPerGranule cfg.granule = granule at *
  generalize i % cfg.nodesPerGranule cfg.granule * cfg.nodeBytes = slotOffset
    at *
  rw [granuleEq] at baseEq slot bounds ⊢
  rw [and_wordNot_lowMask bits (by omega) bitsBound.le, baseEq]
  have quotient : (2 ^ bits * base + granule * 2 ^ bits + cfg.headerOffset +
      slotOffset + byte) / 2 ^ bits = base + granule := by
    have shape : 2 ^ bits * base + granule * 2 ^ bits + cfg.headerOffset +
        slotOffset + byte = (cfg.headerOffset + slotOffset + byte) +
          2 ^ bits * (base + granule) := by ring
    rw [shape, Nat.add_mul_div_left _ _ (Nat.two_pow_pos bits),
      Nat.div_eq_of_lt (by omega), Nat.zero_add]
  rw [quotient]
  ring

theorem nodeAt_header_apart (headers : cfg.ownerHeaders = true)
    (i granule byte offset : Nat) (inNode : byte < cfg.nodeBytes)
    (inHeader : offset < 16) :
    chunk.nodeAt cfg i + byte ≠
      chunk.nodes + granule * cfg.granule + offset := by
  have slot := @slot_le cfg i
  have wide := cfg.headerOffset_spec.1
  rw [nodeAt_headers placed headers]
  generalize i / cfg.nodesPerGranule cfg.granule = index
  generalize i % cfg.nodesPerGranule cfg.granule * cfg.nodeBytes = slotOffset
    at *
  rcases Nat.lt_trichotomy index granule with before | rfl | after
  · have granules := Nat.mul_le_mul_right cfg.granule
      (Nat.succ_le_of_lt before)
    rw [Nat.succ_mul] at granules
    omega
  · omega
  · have granules := Nat.mul_le_mul_right cfg.granule (Nat.succ_le_of_lt after)
    rw [Nat.succ_mul] at granules
    omega

end Chunk

end Geometry

end Pool

end Allocazam
