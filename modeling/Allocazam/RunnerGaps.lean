import Allocazam.RunnerExhaustion

/-!
# Free runs as gaps

A stretch of a chunk is clear when no allocated run reaches into it.  The free runs
are the clear stretches that are not part of longer ones, so that the free runs
after a drain can be told from the runs that are not parked before it.
-/

namespace Allocazam

namespace Runner

variable {cfg : Config} {s t : State} {os : Os} {blocks : List Block}
  {runs : Set Block} {parked : List Nat} {needed : Nat} {spared : Set Nat}

/-- The addresses from `start` to `stop` lie in a chunk, in front of its epilogue,
and belong to no allocated run, apart from the spared ones. -/
def State.Clear (s : State) (spared : Set Nat) (start stop : Nat) : Prop :=
  ∃ chunk ∈ s.chunks, chunk.first ≤ start ∧ start < stop ∧
    stop ≤ chunk.first + chunk.bytes - 16 ∧
    ∀ addr size, s.Allocated addr size → addr + 16 ∉ spared →
      addr + size ≤ start ∨ stop ≤ addr

/-- A clear stretch of the given address and size that is part of no longer
one. -/
def State.Gap (s : State) (spared : Set Nat) (addr size : Nat) : Prop :=
  s.Clear spared addr (addr + size) ∧
    ∀ start stop, s.Clear spared start stop → start ≤ addr →
      addr + size ≤ stop → start = addr ∧ stop = addr + size

section Heap

variable (heap : HeapOk cfg s blocks)

include heap

theorem freeRun_clear {addr size : Nat} (free : s.FreeRun addr size) :
    s.Clear ∅ addr (addr + size) := by
  have listed := heap.freeRun_iff.mp free
  obtain ⟨chunk, member, lower, _, upper⟩ := heap.layout.mem_chunk listed.1
  have stop := upper (by simp)
  have large := (heap.layout.sizes _ listed.1 (by simp)).1
  have stopEq : (⟨addr, size, .free⟩ : Block).stop = addr + size := rfl
  refine ⟨chunk, member, lower, ?_, by omega, ?_⟩
  · dsimp only at large
    omega
  · intro other length marked _
    have used := heap.allocated_iff.mp marked
    have apart := heap.layout.apart used.1 listed.1 fun same => by cases same
    exact apart

theorem clear_covered {start stop : Nat} (clear : s.Clear ∅ start stop) :
    ∃ addr size, s.FreeRun addr size ∧ addr ≤ start ∧ stop ≤ addr + size := by
  obtain ⟨chunk, member, lower, nonempty, upper, apart⟩ := clear
  have view := heap.chunkView member
  obtain ⟨block, inChunk, free, before, after⟩ := view.tiles.exists_free
    (view.coalesced heap) view.noFence
    (fun run inside => by have := (view.size_spec heap inside).2.2; omega)
    lower nonempty upper fun run inside used => by
      have shape : (⟨run.addr, run.size, .used⟩ : Block) = run := by rw [← used]
      exact apart run.addr run.size ⟨chunk, member, by rwa [shape]⟩ (by simp)
  refine ⟨block.addr, block.size, ⟨chunk, member, ?_⟩, before, after⟩
  rw [← free]
  exact inChunk

/-- Free runs that share an address are the same. -/
theorem freeRun_unique {addr size other length word : Nat}
    (one : s.FreeRun addr size) (two : s.FreeRun other length)
    (inOne : addr ≤ word ∧ word < addr + size)
    (inTwo : other ≤ word ∧ word < other + length) :
    addr = other ∧ size = length := by
  have oneListed := heap.freeRun_iff.mp one
  have twoListed := heap.freeRun_iff.mp two
  by_contra different
  have apart := heap.layout.apart oneListed.1 twoListed.1 fun same => by
    cases same
    exact different ⟨rfl, rfl⟩
  unfold Block.Apart Block.stop at apart
  dsimp only at apart
  omega

/-- The free runs are the gaps between the allocated ones. -/
theorem HeapOk.freeRun_iff_gap {addr size : Nat} :
    s.FreeRun addr size ↔ s.Gap ∅ addr size := by
  constructor
  · intro free
    have clear := freeRun_clear heap free
    have nonempty : addr < addr + size := by
      obtain ⟨_, _, _, nonempty, _⟩ := clear
      exact nonempty
    refine ⟨clear, fun start stop larger before after => ?_⟩
    obtain ⟨other, length, covers, lower, upper⟩ := clear_covered heap larger
    have same := freeRun_unique heap free covers ⟨le_refl addr, nonempty⟩
      (by omega)
    omega
  · rintro ⟨clear, maximal⟩
    obtain ⟨other, length, free, lower, upper⟩ := clear_covered heap clear
    have same := maximal other (other + length) (freeRun_clear heap free) lower upper
    obtain ⟨rfl, sizes⟩ := same
    obtain rfl : length = size := by omega
    exact free

end Heap

/-- The stretches that are clear after a drain are those that no run reaches into
but the parked ones. -/
theorem RunnerOk.drained_clear (ok : RunnerOk cfg s runs parked)
    {start stop : Nat} :
    (s.drainRemote cfg).1.Clear ∅ start stop ↔
      s.Clear {p | p ∈ parked} start stop := by
  obtain ⟨_, _, drains⟩ := drainRemote_spec ok
  have allocated : ∀ addr size, (s.drainRemote cfg).1.Allocated addr size ↔
      s.Allocated addr size ∧ addr + 16 ∉ parked := by
    intro addr size
    rw [drains.ok.allocated_iff, ok.allocated_iff]
    rfl
  unfold State.Clear
  rw [drainRemote_chunks]
  simp only [allocated, Set.mem_empty_iff_false, not_false_eq_true, forall_const,
    and_imp, Set.mem_ofPred_eq]

theorem RunnerOk.drained_gap (ok : RunnerOk cfg s runs parked) {addr size : Nat} :
    (s.drainRemote cfg).1.FreeRun addr size ↔
      s.Gap {p | p ∈ parked} addr size := by
  obtain ⟨_, _, drains⟩ := drainRemote_spec ok
  obtain ⟨blocks, heap, _⟩ := drains.ok.heap
  rw [heap.freeRun_iff_gap]
  unfold State.Gap
  simp only [ok.drained_clear]

/-- Nothing fits after a drain when every gap between the runs that are not parked
is too small. -/
theorem RunnerOk.drained_noFit (ok : RunnerOk cfg s runs parked) :
    (s.drainRemote cfg).1.NoFit needed ↔
      ∀ addr size, s.Gap {p | p ∈ parked} addr size → size < needed := by
  unfold State.NoFit
  simp only [ok.drained_gap]

end Runner

end Allocazam
