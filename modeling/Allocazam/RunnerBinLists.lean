import Allocazam.RunnerBoundaryTags

/-!
# The bin lists of a session

In every session the bins list exactly the free runs of the chunks, each once
and in the bin of its size, over well-formed doubly linked lists, and the mask
tells which bins are non-empty.
-/

namespace Allocazam

namespace Runner

variable {cfg : Config} {s : State} {blocks : List Block}

section Heap

variable (heap : HeapOk cfg s blocks) {idx : Nat} (bound : idx < 536)

include heap bound

theorem binRuns_deque :
    IsDeque (fun h => s.mem (h + 16)) (fun h => s.mem (h + 24)) 0 (s.bins idx)
      (s.binRuns idx) := by
  obtain ⟨binned, index⟩ := heap.indexed
  rw [heap.binRuns_eq index bound]
  exact index.deque idx bound

/-- A bin lists the free runs of its sizes. -/
theorem mem_binRuns {h : Nat} :
    h ∈ s.binRuns idx ↔ ∃ chunk ∈ s.chunks, ∃ run ∈ s.runsIn chunk,
      s.isFree run.addr = true ∧ run.addr = h ∧
        binIndexFor run.size = idx := by
  obtain ⟨binned, index⟩ := heap.indexed
  rw [heap.binRuns_eq index bound, index.mem_iff idx bound]
  constructor
  · rintro ⟨run, ⟨member, free⟩, addrEq, bin⟩
    have notFence : run.kind ≠ .fence := by rw [free]; decide
    obtain ⟨chunk, chunkMember, inChunk⟩ := (heap.mem_iff notFence).mp member
    exact ⟨chunk, chunkMember, run, inChunk,
      by rw [heap.isFree member notFence, Block.isFree_iff.mpr free], addrEq, bin⟩
  · rintro ⟨chunk, chunkMember, run, inChunk, free, addrEq, bin⟩
    have view := heap.chunkView chunkMember
    rw [view.isFree heap inChunk, Block.isFree_iff] at free
    exact ⟨run, ⟨view.mem_blocks inChunk, free⟩, addrEq, bin⟩

theorem binRuns_ne_nil : s.binRuns idx ≠ [] ↔ s.bins idx ≠ 0 :=
  not_congr (binRuns_deque heap bound).isStack.eq_nil_iff

end Heap

theorem binRuns_nodup (heap : HeapOk cfg s blocks) :
    ((List.range 536).flatMap s.binRuns).Nodup := by
  rw [List.nodup_flatMap]
  refine ⟨fun idx inRange => ?_, ?_⟩
  · exact (binRuns_deque heap (List.mem_range.mp inRange)).isStack.nodup
  · refine List.nodup_range.imp_of_mem fun {one two} oneRange twoRange different
      h inOne inTwo => different ?_
    obtain ⟨chunk, chunkMember, run, inChunk, _, addrEq, rfl⟩ :=
      (mem_binRuns heap (List.mem_range.mp oneRange)).mp inOne
    obtain ⟨other, otherMember, otherRun, inOther, _, otherAddr, rfl⟩ :=
      (mem_binRuns heap (List.mem_range.mp twoRange)).mp inTwo
    have same := heap.layout.eq_of_addr_eq
      ((heap.chunkView chunkMember).mem_blocks inChunk)
      ((heap.chunkView otherMember).mem_blocks inOther)
      (addrEq.trans otherAddr.symm)
    rw [same]

/-- The free index is exact in every session. -/
theorem freeIndex_exact {session : Session}
    (reachable : (sessions cfg).Reachable session) :
    let s := session.state
    (∀ chunk ∈ s.chunks, ∀ run ∈ s.runsIn chunk,
      (s.isFree run.addr = true ↔
        run.addr ∈ (List.range binCount).flatMap s.binRuns)) ∧
    ((List.range binCount).flatMap s.binRuns).Nodup ∧
    (∀ idx < binCount, ∀ h ∈ s.binRuns idx,
      ∃ chunk ∈ s.chunks, ∃ run ∈ s.runsIn chunk,
        s.isFree run.addr = true ∧ run.addr = h ∧
          binIndexFor run.size = idx) ∧
    (∀ idx < binCount,
      IsStack (fun h => s.mem (nextLink h)) (s.bins idx) (s.binRuns idx) ∧
      (s.bins idx ≠ 0 → s.mem (prevLink (s.bins idx)) = 0) ∧
      ∀ h ∈ s.binRuns idx,
        (s.mem (nextLink h) ≠ 0 →
          s.mem (prevLink (s.mem (nextLink h))) = h) ∧
        (s.mem (prevLink h) ≠ 0 →
          s.mem (nextLink (s.mem (prevLink h))) = h)) ∧
    (∀ idx < binCount, s.binBit idx = true ↔ s.binRuns idx ≠ []) ∧
    ∀ idx, binCount ≤ idx → idx < binWordCount * binWordBits →
      s.binBit idx = false := by
  obtain ⟨runs, parked, ok, _⟩ := (sessionOk_inductive cfg).reachable reachable
  obtain ⟨blocks, heap, _⟩ := ok.heap
  obtain ⟨binned, index⟩ := heap.indexed
  simp only [binCount_eq, nextLink_eq, prevLink_eq]
  refine ⟨fun chunk chunkMember run inChunk => ⟨fun free => ?_, fun listed => ?_⟩,
    binRuns_nodup heap, fun idx bound h listed => (mem_binRuns heap bound).mp
      listed, fun idx bound => ?_, fun idx bound => ?_, fun idx past inWords => ?_⟩
  · have view := heap.chunkView chunkMember
    have bound := binIndexFor_lt (view.size_spec heap inChunk).2.1
      (heap.layout.size_lt (view.mem_blocks inChunk))
    exact List.mem_flatMap.mpr ⟨_, List.mem_range.mpr bound,
      (mem_binRuns heap bound).mpr
        ⟨chunk, chunkMember, run, inChunk, free, rfl, rfl⟩⟩
  · obtain ⟨idx, inRange, listed⟩ := List.mem_flatMap.mp listed
    obtain ⟨_, _, other, _, free, addrEq, _⟩ :=
      (mem_binRuns heap (List.mem_range.mp inRange)).mp listed
    rwa [← addrEq]
  · have deque := binRuns_deque heap bound
    refine ⟨deque.isStack, fun nonempty => ?_, fun h listed =>
      ⟨deque.next_prev listed, deque.prev_next listed⟩⟩
    have head := (binRuns_ne_nil heap bound).mpr nonempty
    obtain ⟨node, rest, nodes⟩ := List.exists_cons_of_ne_nil head
    rw [nodes] at deque
    obtain ⟨headEq, _, prevNull, _⟩ := deque
    rw [headEq]
    exact prevNull
  · rw [index.maskBit idx (by omega), binRuns_ne_nil heap bound]
    exact ⟨fun both => both.2, fun nonempty => ⟨bound, nonempty⟩⟩
  · simp only [binWordCount_eq, binWordBits_eq] at inWords
    have clear := (index.maskBit idx (by omega)).not.mpr (by omega)
    simpa using clear

/-- Four runs have been allocated. -/
def fourSession : Session :=
  ((((Session.mk sampleState []).perform sampleConfig
    (.allocateBytes refusing 24 16)).perform sampleConfig
      (.allocateBytes refusing 24 16)).perform sampleConfig
        (.allocateBytes refusing 24 16)).perform sampleConfig (.allocateBytes refusing 24 16)

/-- The first and the third have been freed. -/
def binnedSession : Session :=
  (fourSession.perform sampleConfig (.deallocateBytes 4112)).perform sampleConfig
    (.deallocateBytes 4208)

theorem fourSession_reachable : (sessions sampleConfig).Reachable fourSession := by
  have begins : Starts sampleConfig ⟨sampleState, []⟩ :=
    .external (by decide : 0 < 4096) (by decide : 4096 + 1024 ≤ 2 ^ 64) rfl
  have word : 24 < 2 ^ 64 := by decide
  exact reachable_call (reachable_call (reachable_call (reachable_call (.start begins)
    (.allocateBytes refusing 24 16) word) (.allocateBytes refusing 24 16) word)
      (.allocateBytes refusing 24 16) word) (.allocateBytes refusing 24 16) word

theorem binnedSession_reachable : (sessions sampleConfig).Reachable binnedSession := by
  have first := reachable_call fourSession_reachable (.deallocateBytes 4112)
    ⟨⟨4112, 24, 0⟩, by decide +kernel, rfl⟩
  exact reachable_call first (.deallocateBytes 4208) ⟨⟨4208, 24, 0⟩, by decide +kernel, rfl⟩

/-- Both are in one bin, the later one first. -/
theorem binnedSession_indexed :
    binnedSession.state.binRuns 6 = [4192, 4096] ∧
      binnedSession.state.mem (prevLink 4096) = 4192 ∧
      binnedSession.state.binBit 6 = true ∧
      ((List.range binCount).flatMap binnedSession.state.binRuns).Nodup := by
  have listed : binnedSession.state.binRuns 6 = [4192, 4096] ∧
      binnedSession.state.mem (nextLink 4192) = 4096 := by
    decide +kernel
  obtain ⟨_, nodup, _, linked, marked, _⟩ := freeIndex_exact binnedSession_reachable
  obtain ⟨_, _, links⟩ := linked 6 (by decide)
  have back := (links 4192 (by rw [listed.1]; simp)).1
  rw [listed.2] at back
  refine ⟨listed.1, back (by decide), (marked 6 (by decide)).mpr ?_, nodup⟩
  rw [listed.1]
  simp

end Runner

end Allocazam
