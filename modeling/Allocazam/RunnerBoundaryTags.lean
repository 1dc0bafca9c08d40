import Allocazam.RunnerAllocationSafety
import Allocazam.RunnerObservation

/-!
# Boundary tags of a session

In every session each chunk is tiled by legal runs that end at an epilogue,
their prev-is-free flags and footers tell the truth, free runs are never
adjacent and allocated runs carry the owner word of the runner.
-/

namespace Allocazam

namespace Runner

variable {cfg : Config} {s : State} {blocks : List Block} {chunk : ChunkNode}

namespace ChunkView

variable (heap : HeapOk cfg s blocks) (view : ChunkView cfg s blocks chunk)

include heap view

omit heap in
theorem mem_blocks {run : Block} (member : run ∈ s.runsIn chunk) :
    run ∈ blocks := by
  obtain ⟨front, back, listed, _⟩ := view.split
  rw [listed]
  simp [member]

/-- The memory tags the runs of the chunk, the first as following none. -/
theorem tagged : Tagged cfg s.mem false (s.runsIn chunk) ∧
    s.runSize (chunk.first + chunk.bytes - 16) = 0 := by
  obtain ⟨front, back, listed, before⟩ := view.split
  have tagged := heap.tagged
  rw [listed, List.append_assoc, tagged_append, before, tagged_append] at tagged
  exact ⟨tagged.2.1, tagged.2.2.1.runSize_fence rfl⟩

theorem size_spec {run : Block} (member : run ∈ s.runsIn chunk) :
    s.runSize run.addr = run.size ∧ 16 ∣ run.size ∧ 48 ≤ run.size := by
  have inBlocks := view.mem_blocks member
  have notFence := view.noFence run member
  obtain ⟨large, aligned⟩ := heap.layout.sizes run inBlocks notFence
  exact ⟨heap.runSize inBlocks notFence, aligned, large⟩

theorem isFree {run : Block} (member : run ∈ s.runsIn chunk) :
    s.isFree run.addr = run.isFree :=
  heap.isFree (view.mem_blocks member) (view.noFence run member)

/-- The flag of a run says whether the runs before it end with a free one. -/
theorem prevIsFree {front back : List Block} {run : Block}
    (listed : s.runsIn chunk = front ++ run :: back) :
    s.prevIsFree run.addr = carryFree false front := by
  obtain ⟨tagged, _⟩ := view.tagged heap
  have member : run ∈ s.runsIn chunk := by simp [listed]
  rw [listed, tagged_append] at tagged
  exact tagged.2.1.prevIsFree
    (heap.layout.packable (view.mem_blocks member))
    (view.noFence run member)

theorem not_both_free {front back : List Block} {run next : Block}
    (listed : s.runsIn chunk = front ++ run :: next :: back) :
    ¬ (s.isFree run.addr = true ∧ s.isFree next.addr = true) := by
  rw [view.isFree heap (by simp [listed]), view.isFree heap (by simp [listed])]
  obtain ⟨outerFront, outerBack, whole, _⟩ := view.split
  have coalesced := heap.layout.coalesced
  rw [whole, listed, List.append_assoc, coalesced_append,
    coalesced_append] at coalesced
  have apart := (coalesced_append.mp coalesced.2.1).2.2.1
  rintro ⟨runFree, nextFree⟩
  exact apart ⟨runFree, Block.isFree_iff.mp nextFree⟩

/-- The links and the footer of a free run are three words of the run, in this
order, the footer being its last word. -/
theorem free_words {run : Block} (member : run ∈ s.runsIn chunk)
    (free : s.isFree run.addr = true) :
    s.mem (run.stop - 8) = run.size ∧
      nextLink run.addr + 8 ≤ prevLink run.addr ∧
      prevLink run.addr + 8 ≤ s.footerPtr run.addr ∧
      s.footerPtr run.addr + 8 = run.stop := by
  obtain ⟨sizeEq, _, large⟩ := view.size_spec heap member
  have footer : s.footerPtr run.addr = run.addr + run.size - 8 := by
    rw [← sizeEq]
    rfl
  rw [view.isFree heap member] at free
  obtain ⟨flag, tagged⟩ := (view.tagged heap).1.exists_flag member
  unfold BlockTagged at tagged
  rw [Block.isFree_iff.mp free] at tagged
  have stopEq : run.stop = run.addr + run.size := rfl
  refine ⟨tagged.2, by simp, ?_, ?_⟩
  · rw [footer, prevLink_eq]
    omega
  · rw [footer]
    omega

end ChunkView

/-- The boundary tags of every chunk are exact in every session. -/
theorem boundaryTags_exact {session : Session}
    (reachable : (sessions cfg).Reachable session) {chunk : ChunkNode}
    (member : chunk ∈ session.state.chunks) :
    let s := session.state
    let last := chunk.first + chunk.bytes - epilogueSize
    Tiles chunk.first (s.runsIn chunk) last ∧ s.runSize last = 0 ∧
      (∀ run ∈ s.runsIn chunk, s.runSize run.addr = run.size ∧
        runAlignment ∣ run.size ∧ minFreeRunSize ≤ run.size) ∧
      (∀ run back, s.runsIn chunk = run :: back →
        s.prevIsFree run.addr = false) ∧
      (∀ front before run back,
        s.runsIn chunk = front ++ before :: run :: back →
          s.prevIsFree run.addr = s.isFree before.addr ∧
            ¬ (s.isFree before.addr = true ∧ s.isFree run.addr = true)) ∧
      (∀ run ∈ s.runsIn chunk, s.isFree run.addr = true →
        s.mem (run.stop - 8) = run.size ∧
          nextLink run.addr + 8 ≤ prevLink run.addr ∧
          prevLink run.addr + 8 ≤ s.footerPtr run.addr ∧
          s.footerPtr run.addr + 8 = run.stop) ∧
      ∀ run ∈ s.runsIn chunk, s.isFree run.addr = false →
        s.mem (ownerWord run.addr) = cfg.self := by
  obtain ⟨runs, parked, ok, _⟩ := (sessionOk_inductive cfg).reachable reachable
  obtain ⟨blocks, heap, _⟩ := ok.heap
  have view := heap.chunkView member
  refine ⟨view.tiles, (view.tagged heap).2, fun run inChunk =>
    view.size_spec heap inChunk, fun run back listed => ?_,
    fun front before run back listed => ⟨?_, view.not_both_free heap listed⟩,
    fun run inChunk free => view.free_words heap inChunk free,
    fun run inChunk notFree => ?_⟩
  · exact view.prevIsFree heap
      (show session.state.runsIn chunk = [] ++ run :: back from listed)
  · rw [view.prevIsFree heap
      (show session.state.runsIn chunk = (front ++ [before]) ++ run :: back by
        simp [listed]), view.isFree heap (by simp [listed])]
    simp
  · rw [view.isFree heap inChunk, Block.isFree_eq_false_iff] at notFree
    have notFence := view.noFence run inChunk
    have used : run.kind = .used := by
      cases kind : run.kind <;> simp_all
    exact heap.owner ⟨view.mem_blocks inChunk, used⟩

theorem sampleSession_tagged :
    let s := sampleSession.state
    let chunk : ChunkNode := ⟨4096, 1024, 0, 0⟩
    s.runsIn chunk = [⟨4096, 48, .used⟩, ⟨4144, 224, .used⟩,
        ⟨4368, 736, .free⟩] ∧
      Tiles 4096 (s.runsIn chunk) 5104 :=
  ⟨by decide +kernel, (boundaryTags_exact sampleSession_reachable
    (show (⟨4096, 1024, 0, 0⟩ : ChunkNode) ∈ sampleSession.state.chunks by
      decide +kernel)).1⟩

end Runner

end Allocazam
