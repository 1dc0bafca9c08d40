import Allocazam.FencedArenas
import Allocazam.RunnerFreeIndex

/-!
# Layout of the chunks and boundary tags

A layout is the list of all runs of all chunks, each chunk closed by its
epilogue as a fence.  The boundary tags say that the memory carries the layout:
headers, prev-is-free flags, footers of free runs and owner words of allocated
ones.
-/

namespace Allocazam

namespace Runner

def ChunkNode.arena (chunk : ChunkNode) : Nat × Nat :=
  (chunk.first, chunk.first + chunk.bytes)

/-- Chunks are aligned, hold a run, lie inside the address space and are
pairwise disjoint. -/
structure ChunksOk (chunks : List ChunkNode) : Prop where
  large : ∀ chunk ∈ chunks, 64 ≤ chunk.bytes
  aligned : ∀ chunk ∈ chunks, 16 ∣ chunk.first
  positive : ∀ chunk ∈ chunks, 0 < chunk.first
  bounded : ∀ chunk ∈ chunks, chunk.first + chunk.bytes ≤ 2 ^ 64
  apart : chunks.Pairwise fun one two =>
    one.first + one.bytes ≤ two.first ∨ two.first + two.bytes ≤ one.first

/-- A legal layout of the chunks. -/
structure LayoutOk (chunks : List ChunkNode) (blocks : List Block) :
    Prop where
  chunksOk : ChunksOk chunks
  fenced : Fenced 16 (chunks.map ChunkNode.arena) blocks
  sizes : ∀ block ∈ blocks, block.kind ≠ .fence →
    48 ≤ block.size ∧ 16 ∣ block.size
  coalesced : Coalesced false blocks

def freeRuns (blocks : List Block) : Set Block :=
  {block | block ∈ blocks ∧ block.kind = .free}

def usedRuns (blocks : List Block) : Set Block :=
  {block | block ∈ blocks ∧ block.kind = .used}

theorem mem_freeRuns {blocks : List Block} {block : Block} :
    block ∈ freeRuns blocks ↔ block ∈ blocks ∧ block.kind = .free :=
  Iff.rfl

theorem mem_usedRuns {blocks : List Block} {block : Block} :
    block ∈ usedRuns blocks ↔ block ∈ blocks ∧ block.kind = .used :=
  Iff.rfl

section Runs

variable {front back : List Block} {block : Block}

theorem freeRuns_skip (notFree : block.kind ≠ .free) :
    freeRuns (front ++ block :: back) = freeRuns (front ++ back) := by
  ext other
  simp only [mem_freeRuns, List.mem_append, List.mem_cons]
  constructor
  · rintro ⟨inFront | rfl | inBack, free⟩
    · exact ⟨Or.inl inFront, free⟩
    · exact absurd free notFree
    · exact ⟨Or.inr inBack, free⟩
  · rintro ⟨place, free⟩
    exact ⟨by tauto, free⟩

theorem usedRuns_skip (notUsed : block.kind ≠ .used) :
    usedRuns (front ++ block :: back) = usedRuns (front ++ back) := by
  ext other
  simp only [mem_usedRuns, List.mem_append, List.mem_cons]
  constructor
  · rintro ⟨inFront | rfl | inBack, used⟩
    · exact ⟨Or.inl inFront, used⟩
    · exact absurd used notUsed
    · exact ⟨Or.inr inBack, used⟩
  · rintro ⟨place, used⟩
    exact ⟨by tauto, used⟩

theorem usedRuns_diff (nodup : (front ++ block :: back).Nodup) :
    usedRuns (front ++ block :: back) \ {block} =
      usedRuns (front ++ back) := by
  have fresh := (List.nodup_cons.mp (List.nodup_middle.mp nodup)).1
  ext other
  simp only [Set.mem_sdiff, mem_usedRuns, List.mem_append, List.mem_cons,
    Set.mem_singleton_iff]
  constructor
  · rintro ⟨⟨place, used⟩, different⟩
    exact ⟨by tauto, used⟩
  · rintro ⟨place, used⟩
    refine ⟨⟨by tauto, used⟩, ?_⟩
    rintro rfl
    exact fresh (List.mem_append.mpr place)

theorem usedRuns_insert (used : block.kind = .used) :
    usedRuns (front ++ block :: back) =
      insert block (usedRuns (front ++ back)) := by
  ext other
  simp only [mem_usedRuns, List.mem_append, List.mem_cons, Set.mem_insert_iff]
  constructor
  · rintro ⟨place, otherUsed⟩
    tauto
  · rintro (rfl | ⟨place, otherUsed⟩)
    · exact ⟨by simp, used⟩
    · exact ⟨by tauto, otherUsed⟩

theorem freeRuns_insert (free : block.kind = .free) :
    freeRuns (front ++ block :: back) =
      insert block (freeRuns (front ++ back)) := by
  ext other
  simp only [mem_freeRuns, List.mem_append, List.mem_cons, Set.mem_insert_iff]
  constructor
  · rintro ⟨place, otherFree⟩
    tauto
  · rintro (rfl | ⟨place, otherFree⟩)
    · exact ⟨by simp, free⟩
    · exact ⟨by tauto, otherFree⟩

theorem freeRuns_diff (nodup : (front ++ block :: back).Nodup) :
    freeRuns (front ++ block :: back) \ {block} =
      freeRuns (front ++ back) := by
  have fresh := (List.nodup_cons.mp (List.nodup_middle.mp nodup)).1
  ext other
  simp only [Set.mem_sdiff, mem_freeRuns, List.mem_append, List.mem_cons,
    Set.mem_singleton_iff]
  constructor
  · rintro ⟨⟨place, free⟩, different⟩
    exact ⟨by tauto, free⟩
  · rintro ⟨place, free⟩
    refine ⟨⟨by tauto, free⟩, ?_⟩
    rintro rfl
    exact fresh (List.mem_append.mpr place)

end Runs

/-- The part of a block's memory that carries its boundary tags. -/
def TagWord (block : Block) (word : Nat) : Prop :=
  word = block.addr ∨ block.kind = .used ∧ word = block.addr + 8 ∨
    block.kind = .free ∧ word = block.stop - 8

theorem TagWord.place {block : Block} {word : Nat}
    (isTag : TagWord block word) :
    word = block.addr ∨ word = block.addr + 8 ∨ word = block.stop - 8 := by
  rcases isTag with header | ⟨_, owner⟩ | ⟨_, footer⟩
  · exact Or.inl header
  · exact Or.inr (Or.inl owner)
  · exact Or.inr (Or.inr footer)

/-- The tags of one block; `before` tells whether the run before it is free.
The flag of the epilogue is not maintained. -/
def BlockTagged (cfg : Config) (mem : Nat → Nat) (before : Bool)
    (block : Block) : Prop :=
  match block.kind with
  | .free =>
      mem block.addr = pack block.size true before ∧
        mem (block.stop - 8) = block.size
  | .used =>
      mem block.addr = pack block.size false before ∧
        mem (block.addr + 8) = cfg.self
  | .fence => mem block.addr = pack 0 false true

def Tagged (cfg : Config) (mem : Nat → Nat) : Bool → List Block → Prop
  | _, [] => True
  | before, block :: blocks =>
      BlockTagged cfg mem before block ∧ Tagged cfg mem block.isFree blocks

section Tagged

variable {cfg : Config} {mem mem' : Nat → Nat} {before : Bool}

@[simp]
theorem tagged_nil : Tagged cfg mem before [] :=
  trivial

@[simp]
theorem tagged_cons {block : Block} {blocks : List Block} :
    Tagged cfg mem before (block :: blocks) ↔
      BlockTagged cfg mem before block ∧
        Tagged cfg mem block.isFree blocks :=
  Iff.rfl

theorem tagged_append {front back : List Block} :
    Tagged cfg mem before (front ++ back) ↔
      Tagged cfg mem before front ∧
        Tagged cfg mem (carryFree before front) back := by
  induction front generalizing before with
  | nil => simp
  | cons block front ih => simp [ih, and_assoc]

theorem BlockTagged.congr {block : Block}
    (tagged : BlockTagged cfg mem before block)
    (agrees : ∀ word, TagWord block word → mem' word = mem word) :
    BlockTagged cfg mem' before block := by
  have header := agrees block.addr (Or.inl rfl)
  unfold BlockTagged at tagged ⊢
  cases kind : block.kind with
  | free =>
      have footer := agrees (block.stop - 8) (Or.inr (Or.inr ⟨kind, rfl⟩))
      simp_all
  | used =>
      have owner := agrees (block.addr + 8) (Or.inr (Or.inl ⟨kind, rfl⟩))
      simp_all
  | fence => simp_all

theorem Tagged.congr {blocks : List Block} (tagged : Tagged cfg mem before blocks)
    (agrees : ∀ block ∈ blocks, ∀ word, TagWord block word →
      mem' word = mem word) :
    Tagged cfg mem' before blocks := by
  induction blocks generalizing before with
  | nil => trivial
  | cons block blocks ih =>
      exact ⟨tagged.1.congr (agrees block (by simp)),
        ih tagged.2 fun other member => agrees other (by simp [member])⟩

/-- Exchanging a stretch of runs: the rest of the memory keeps its tags, only
the block behind the stretch may be told a new prev-is-free flag. -/
theorem Tagged.replace {front old new back : List Block} {next : Block}
    (tagged : Tagged cfg mem false (front ++ old ++ next :: back))
    (agrees : ∀ block ∈ front ++ back, ∀ word, TagWord block word →
      mem' word = mem word)
    (newTagged : Tagged cfg mem' (carryFree false front) new)
    (nextTagged : BlockTagged cfg mem'
      (carryFree (carryFree false front) new) next) :
    Tagged cfg mem' false (front ++ new ++ next :: back) := by
  rw [tagged_append, tagged_append] at tagged
  obtain ⟨⟨frontTagged, _⟩, _, backTagged⟩ := tagged
  rw [tagged_append, tagged_append, carryFree_append]
  exact ⟨⟨frontTagged.congr fun block member =>
      agrees block (by simp [member]), newTagged⟩, nextTagged,
    backTagged.congr fun block member => agrees block (by simp [member])⟩

end Tagged

namespace LayoutOk

variable {chunks : List ChunkNode} {blocks : List Block}

/-- Every block lies in a chunk, and a run stops before the epilogue. -/
theorem mem_chunk (layout : LayoutOk chunks blocks) {block : Block}
    (member : block ∈ blocks) :
    ∃ chunk ∈ chunks, chunk.first ≤ block.addr ∧
      block.stop ≤ chunk.first + chunk.bytes ∧
      (block.kind ≠ .fence →
        block.stop + 16 ≤ chunk.first + chunk.bytes) := by
  obtain ⟨arena, arenaMember, bounds⟩ := layout.fenced.mem_arena member
  obtain ⟨chunk, chunkMember, rfl⟩ := List.mem_map.mp arenaMember
  exact ⟨chunk, chunkMember, bounds⟩

theorem pairwise_apart (layout : LayoutOk chunks blocks) :
    blocks.Pairwise Block.Apart :=
  layout.fenced.pairwise_apart
    (List.pairwise_map.mpr layout.chunksOk.apart)

theorem size_spec (layout : LayoutOk chunks blocks) {block : Block}
    (member : block ∈ blocks) : 16 ∣ block.size ∧ 16 ≤ block.size := by
  by_cases isFence : block.kind = .fence
  · rw [layout.fenced.fence_size member isFence]
    decide
  · obtain ⟨large, aligned⟩ := layout.sizes block member isFence
    exact ⟨aligned, by omega⟩

theorem addr_pos (layout : LayoutOk chunks blocks) {block : Block}
    (member : block ∈ blocks) : 0 < block.addr := by
  obtain ⟨chunk, chunkMember, lower, _⟩ := layout.mem_chunk member
  have := layout.chunksOk.positive chunk chunkMember
  omega

theorem stop_le (layout : LayoutOk chunks blocks) {block : Block}
    (member : block ∈ blocks) : block.stop ≤ 2 ^ 64 := by
  obtain ⟨chunk, chunkMember, _, upper, _⟩ := layout.mem_chunk member
  exact upper.trans (layout.chunksOk.bounded chunk chunkMember)

theorem size_lt (layout : LayoutOk chunks blocks) {block : Block}
    (member : block ∈ blocks) : block.size < 2 ^ 64 := by
  have upper := layout.stop_le member
  have lower := layout.addr_pos member
  unfold Block.stop at upper
  omega

theorem addr_dvd (layout : LayoutOk chunks blocks) {block : Block}
    (member : block ∈ blocks) : 16 ∣ block.addr := by
  refine layout.fenced.dvd_addr ?_
    (fun other otherMember => (layout.size_spec otherMember).1) block member
  intro arena arenaMember
  obtain ⟨chunk, chunkMember, rfl⟩ := List.mem_map.mp arenaMember
  exact layout.chunksOk.aligned chunk chunkMember

theorem apart (layout : LayoutOk chunks blocks) {block other : Block}
    (member : block ∈ blocks) (otherMember : other ∈ blocks)
    (different : block ≠ other) : block.Apart other := by
  have symmetric : Std.Symm Block.Apart := ⟨fun one two => Or.symm⟩
  exact layout.pairwise_apart.forall member otherMember different

theorem eq_of_holds (layout : LayoutOk chunks blocks) {block other : Block}
    (member : block ∈ blocks) (otherMember : other ∈ blocks) {word : Nat}
    (holds : block.Holds word) (otherHolds : other.Holds word) :
    block = other := by
  by_contra different
  obtain ⟨lower, upper⟩ := holds
  obtain ⟨otherLower, otherUpper⟩ := otherHolds
  rcases layout.apart member otherMember different with before | after <;>
    omega

theorem holds_addr (layout : LayoutOk chunks blocks) {block : Block}
    (member : block ∈ blocks) : block.Holds block.addr := by
  have := (layout.size_spec member).2
  exact ⟨Nat.le_refl _, by unfold Block.stop; omega⟩

theorem eq_of_addr_eq (layout : LayoutOk chunks blocks) {block other : Block}
    (member : block ∈ blocks) (otherMember : other ∈ blocks)
    (same : block.addr = other.addr) : block = other :=
  layout.eq_of_holds member otherMember (layout.holds_addr member)
    (same ▸ layout.holds_addr otherMember)

theorem nodup (layout : LayoutOk chunks blocks) : blocks.Nodup := by
  refine layout.pairwise_apart.imp_of_mem fun {block other} member _ apart => ?_
  rintro rfl
  have := (layout.size_spec member).2
  have stopEq : block.stop = block.addr + block.size := rfl
  rcases apart with one | two <;> omega

theorem length_le (layout : LayoutOk chunks blocks) :
    blocks.length ≤ (chunks.map ChunkNode.bytes).sum := by
  have covered := layout.fenced.length_le fun block member => by
    have := (layout.size_spec member).2
    omega
  have sizes : (chunks.map ChunkNode.arena).map (fun arena =>
      arena.2 - arena.1) = chunks.map ChunkNode.bytes := by
    rw [List.map_map]
    refine List.map_congr_left fun chunk _ => ?_
    simp [ChunkNode.arena]
  rwa [sizes] at covered

theorem linkable (layout : LayoutOk chunks blocks) :
    Linkable (freeRuns blocks) where
  aligned _ member := layout.addr_dvd member.1
  nonnull _ member := (layout.addr_pos member.1).ne'
  sizeAligned _ member := (layout.size_spec member.1).1
  sizeBound _ member := layout.size_lt member.1
  injective _ member _ otherMember same :=
    layout.eq_of_addr_eq member.1 otherMember.1 same

theorem free_size (layout : LayoutOk chunks blocks) {block : Block}
    (member : block ∈ freeRuns blocks) : 48 ≤ block.size :=
  (layout.sizes block member.1 (by rw [member.2]; decide)).1

/-- A link word of a free run lies inside that run. -/
theorem exists_holds_of_linkWord (layout : LayoutOk chunks blocks)
    {word : Nat} (isLink : LinkWord (freeRuns blocks) word) :
    ∃ block ∈ freeRuns blocks, block.addr + 16 ≤ word ∧
      word + 16 ≤ block.stop ∧ 8 ∣ word := by
  obtain ⟨block, member, place⟩ := isLink
  have large := layout.free_size member
  have aligned := layout.addr_dvd member.1
  have stopEq : block.stop = block.addr + block.size := rfl
  refine ⟨block, member, ?_⟩
  rcases place with rfl | rfl <;> omega

theorem not_tagWord_of_linkWord (layout : LayoutOk chunks blocks)
    {block : Block} (member : block ∈ blocks) {word : Nat}
    (isLink : LinkWord (freeRuns blocks) word) : ¬ TagWord block word := by
  obtain ⟨run, runMember, lower, upper, _⟩ :=
    layout.exists_holds_of_linkWord isLink
  have large := (layout.size_spec member).2
  have stopEq : block.stop = block.addr + block.size := rfl
  intro isTag
  have holds : block.Holds word := by
    unfold Block.Holds
    rcases isTag.place with rfl | rfl | rfl <;> omega
  have same := layout.eq_of_holds member runMember.1 holds
    ⟨by omega, by omega⟩
  subst same
  rcases isTag.place with rfl | rfl | rfl <;> omega

end LayoutOk

end Runner

end Allocazam
