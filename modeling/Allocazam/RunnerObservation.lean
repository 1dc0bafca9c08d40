import Allocazam.RunnerSession

/-!
# Reading the heap off the memory

Walks that list the runs of a chunk from their headers and the runs of a bin
from its links.  In a legal heap they return exactly the layout and the index.
-/

namespace Allocazam

namespace Runner

namespace State

variable (s : State)

/-- The runs from `addr` on, up to the epilogue. -/
def runsFrom : Nat → Nat → List Block
  | 0, _ => []
  | fuel + 1, addr =>
      if s.runSize addr = 0 then []
      else
        ⟨addr, s.runSize addr, if s.isFree addr then .free else .used⟩ ::
          runsFrom fuel (addr + s.runSize addr)

/-- The runs of a chunk. -/
def runsIn (chunk : ChunkNode) : List Block :=
  s.runsFrom chunk.bytes chunk.first

/-- The nodes from `h` on, along the `next` links. -/
def nodesFrom : Nat → Nat → List Nat
  | 0, _ => []
  | fuel + 1, h =>
      if h = 0 then [] else h :: nodesFrom fuel (s.mem (nextLink h))

/-- The headers listed in a bin. -/
def binRuns (idx : Nat) : List Nat :=
  s.nodesFrom s.nodeBound (s.bins idx)

/-- A run of the given address and size is marked allocated. -/
def Allocated (addr size : Nat) : Prop :=
  ∃ chunk ∈ s.chunks, (⟨addr, size, .used⟩ : Block) ∈ s.runsIn chunk

end State

variable {cfg : Config} {s : State} {blocks : List Block}

theorem nodesFrom_eq {fuel head : Nat} {nodes : List Nat}
    (stack : IsStack (fun h => s.mem (h + 16)) head nodes)
    (enough : nodes.length ≤ fuel) : s.nodesFrom fuel head = nodes := by
  induction nodes generalizing fuel head with
  | nil =>
      have null : head = 0 := stack
      cases fuel <;> simp [State.nodesFrom, null]
  | cons node nodes ih =>
      obtain ⟨rfl, nonnull, rest⟩ := stack
      obtain ⟨fuel, rfl⟩ : ∃ more, fuel = more + 1 :=
        ⟨fuel - 1, by simp at enough; omega⟩
      unfold State.nodesFrom
      rw [if_neg nonnull, nextLink_eq, ih rest (by simpa using enough)]

/-- The walk over a tagged stretch that ends at an epilogue returns the
stretch. -/
theorem runsFrom_eq {before : Bool} {first last fuel : Nat}
    {inner back : List Block} {fence : Block}
    (tagged : Tagged cfg s.mem before (inner ++ fence :: back))
    (tiles : Tiles first inner last) (fenceAddr : fence.addr = last)
    (isFence : fence.kind = .fence)
    (runs : ∀ block ∈ inner, block.kind ≠ .fence ∧ Packable block)
    (enough : inner.length ≤ fuel) : s.runsFrom fuel first = inner := by
  induction inner generalizing before first fuel with
  | nil =>
      obtain rfl : first = last := tiles
      have size := tagged.1.runSize_fence isFence
      rw [fenceAddr] at size
      cases fuel <;> simp [State.runsFrom, size]
  | cons block inner ih =>
      obtain ⟨rfl, rest⟩ := tiles
      obtain ⟨fuel, rfl⟩ : ∃ more, fuel = more + 1 :=
        ⟨fuel - 1, by simp at enough; omega⟩
      obtain ⟨notFence, packable⟩ := runs block (by simp)
      have size := tagged.1.runSize packable notFence
      have isFree := tagged.1.isFree packable notFence
      have large := (packable notFence).1
      have kind : (if block.isFree then BlockKind.free else .used) =
          block.kind := by
        unfold Block.isFree
        cases kind : block.kind <;> simp_all
      have later := ih tagged.2 rest
        (fun other member => runs other (by simp [member]))
        (by simpa using enough)
      unfold State.runsFrom
      rw [size, if_neg (by omega), isFree, kind]
      unfold Block.stop at later
      rw [later]

/-- What the layout says about one chunk. -/
structure ChunkView (cfg : Config) (s : State) (blocks : List Block)
    (chunk : ChunkNode) : Prop where
  split : ∃ front back, blocks = front ++ s.runsIn chunk ++
      ⟨chunk.first + chunk.bytes - 16, 16, .fence⟩ :: back ∧
    carryFree false front = false
  tiles : Tiles chunk.first (s.runsIn chunk) (chunk.first + chunk.bytes - 16)
  noFence : ∀ run ∈ s.runsIn chunk, run.kind ≠ .fence

theorem HeapOk.chunkView (heap : HeapOk cfg s blocks) {chunk : ChunkNode}
    (member : chunk ∈ s.chunks) : ChunkView cfg s blocks chunk := by
  obtain ⟨front, inner, last, back, listed, stops, tiles, noFence, before⟩ :=
    heap.layout.fenced.exists_arena (List.mem_map_of_mem member)
  simp only [ChunkNode.arena] at stops tiles
  have lastEq : last = chunk.first + chunk.bytes - 16 := by omega
  have tagged := heap.tagged
  rw [listed, List.append_assoc, tagged_append] at tagged
  have runs : ∀ block ∈ inner, block.kind ≠ .fence ∧ Packable block := by
    intro block inside
    exact ⟨noFence block inside,
      heap.layout.packable (by rw [listed]; simp [inside])⟩
  have counted := tiles.length_le fun block inside => by
    have := ((runs block inside).2 (runs block inside).1).1
    omega
  have walked : s.runsIn chunk = inner :=
    runsFrom_eq tagged.2 tiles rfl rfl runs (by omega)
  rw [lastEq] at listed tiles
  refine ⟨⟨front, back, ?_, before⟩, ?_, ?_⟩ <;> rw [walked] <;> assumption

/-- The runs of the layout are those found in the chunks. -/
theorem HeapOk.mem_iff (heap : HeapOk cfg s blocks) {run : Block}
    (notFence : run.kind ≠ .fence) :
    run ∈ blocks ↔ ∃ chunk ∈ s.chunks, run ∈ s.runsIn chunk := by
  constructor
  · intro member
    obtain ⟨chunk, chunkMember, lower, _, upper⟩ := heap.layout.mem_chunk member
    have view := heap.chunkView chunkMember
    have above := upper notFence
    have positive := (heap.layout.size_spec member).2
    have stopEq : run.stop = run.addr + run.size := rfl
    obtain ⟨other, otherMember, holds⟩ :=
      view.tiles.exists_holds lower (by omega)
    obtain ⟨front, back, listed, _⟩ := view.split
    have same := heap.layout.eq_of_holds member
      (by rw [listed]; simp [otherMember]) (heap.layout.holds_addr member) holds
    exact ⟨chunk, chunkMember, same ▸ otherMember⟩
  · rintro ⟨chunk, chunkMember, member⟩
    obtain ⟨front, back, listed, _⟩ := (heap.chunkView chunkMember).split
    rw [listed]
    simp [member]

theorem HeapOk.allocated_iff (heap : HeapOk cfg s blocks) {addr size : Nat} :
    s.Allocated addr size ↔
      (⟨addr, size, .used⟩ : Block) ∈ usedRuns blocks := by
  unfold State.Allocated
  rw [mem_usedRuns, ← heap.mem_iff (by simp)]
  simp

/-- No bin lists more runs than the bound of the walks. -/
theorem HeapOk.binned_length_le (heap : HeapOk cfg s blocks)
    {binned : Nat → List Nat} (index : FreeIndex s binned (freeRuns blocks))
    {idx : Nat} (bound : idx < 536) : (binned idx).length ≤ s.nodeBound := by
  have inside : binned idx ⊆ blocks.map Block.addr := by
    intro h listed
    obtain ⟨block, member, rfl, _⟩ := (index.mem_iff idx bound h).mp listed
    exact List.mem_map_of_mem member.1
  have counted := (List.subperm_of_subset
    (index.deque idx bound).isStack.nodup inside).length_le
  rw [List.length_map] at counted
  exact counted.trans heap.layout.length_le

/-- The walk of a bin returns its list in the index. -/
theorem HeapOk.binRuns_eq (heap : HeapOk cfg s blocks)
    {binned : Nat → List Nat} (index : FreeIndex s binned (freeRuns blocks))
    {idx : Nat} (bound : idx < 536) : s.binRuns idx = binned idx :=
  nodesFrom_eq (index.deque idx bound).isStack
    (heap.binned_length_le index bound)

end Runner

end Allocazam
