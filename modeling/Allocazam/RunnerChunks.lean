import Allocazam.RunnerHeapStep

/-!
# Adding chunks

A fresh chunk becomes one free run in front of its epilogue; the runs of the
other chunks stay as they are.
-/

namespace Allocazam

namespace Runner

variable {cfg : Config} {s t : State} {blocks : List Block}

/-- A chunk that may be added to the given ones. -/
structure Fresh (chunks : List ChunkNode) (chunk : ChunkNode) : Prop where
  aligned : 16 ∣ chunk.first
  positive : 0 < chunk.first
  sizeAligned : 16 ∣ chunk.bytes
  large : 64 ≤ chunk.bytes
  bounded : chunk.first + chunk.bytes ≤ 2 ^ 64
  apart : ∀ other ∈ chunks, chunk.first + chunk.bytes ≤ other.first ∨
    other.first + other.bytes ≤ chunk.first

def ChunkNode.wholeRun (chunk : ChunkNode) : Block :=
  ⟨chunk.first, chunk.bytes - 16, .free⟩

def ChunkNode.epilogue (chunk : ChunkNode) : Block :=
  ⟨chunk.first + (chunk.bytes - 16), 16, .fence⟩

theorem wholeChunk_usedRuns {chunk : ChunkNode} :
    usedRuns (chunk.wholeRun :: chunk.epilogue :: blocks) =
      usedRuns blocks := by
  have skipRun :
      usedRuns ([] ++ chunk.wholeRun :: chunk.epilogue :: blocks) =
        usedRuns ([] ++ chunk.epilogue :: blocks) :=
    usedRuns_skip (by simp [ChunkNode.wholeRun])
  have skipFence : usedRuns ([] ++ chunk.epilogue :: blocks) =
      usedRuns ([] ++ blocks) :=
    usedRuns_skip (by simp [ChunkNode.epilogue])
  exact skipRun.trans skipFence

namespace Fresh

variable {chunk : ChunkNode} (fresh : Fresh s.chunks chunk)

include fresh

theorem layoutOk (layout : LayoutOk s.chunks blocks) :
    LayoutOk (chunk :: s.chunks)
      (chunk.wholeRun :: chunk.epilogue :: blocks) := by
  have large := fresh.large
  have sizeAligned := fresh.sizeAligned
  have chunksOk := layout.chunksOk
  refine ⟨⟨?_, ?_, ?_, ?_, ?_⟩, ?_, ?_, ?_⟩
  · simpa using ⟨large, chunksOk.large⟩
  · simpa using ⟨fresh.aligned, chunksOk.aligned⟩
  · simpa using ⟨fresh.positive, chunksOk.positive⟩
  · simpa using ⟨fresh.bounded, chunksOk.bounded⟩
  · exact List.pairwise_cons.mpr ⟨fresh.apart, chunksOk.apart⟩
  · have arena : chunk.arena =
        (chunk.first, chunk.first + (chunk.bytes - 16) + 16) := by
      unfold ChunkNode.arena
      congr 1
      omega
    rw [List.map_cons, arena]
    exact Fenced.cons
      (show Tiles chunk.first [chunk.wholeRun] _ from ⟨rfl, rfl⟩)
      (by simp [ChunkNode.wholeRun]) layout.fenced
  · intro block member notFence
    simp only [List.mem_cons] at member
    rcases member with rfl | rfl | inBlocks
    · simp only [ChunkNode.wholeRun]
      omega
    · exact absurd rfl notFence
    · exact layout.sizes block inBlocks notFence
  · refine ⟨by simp, ?_, ?_⟩
    · simp [ChunkNode.epilogue]
    · exact layout.coalesced

theorem apart_block (layout : LayoutOk s.chunks blocks) {block : Block}
    (member : block ∈ blocks) :
    chunk.first + chunk.bytes ≤ block.addr ∨ block.stop ≤ chunk.first := by
  obtain ⟨other, otherMember, lower, upper, _⟩ := layout.mem_chunk member
  have stopEq : block.stop = block.addr + block.size := rfl
  rcases fresh.apart other otherMember with before | after <;> omega

theorem not_linkWord (layout : LayoutOk s.chunks blocks) {word : Nat}
    (lower : chunk.first ≤ word) (upper : word < chunk.first + chunk.bytes) :
    ¬ LinkWord (freeRuns blocks) word := by
  intro isLink
  obtain ⟨block, member, blockLower, blockUpper, _⟩ :=
    layout.exists_holds_of_linkWord isLink
  rcases fresh.apart_block layout member.1 with before | after <;> omega

theorem not_tagWord (layout : LayoutOk s.chunks blocks) {block : Block}
    (member : block ∈ blocks) {word : Nat} (lower : chunk.first ≤ word)
    (upper : word < chunk.first + chunk.bytes) : ¬ TagWord block word := by
  intro isTag
  have large := (layout.size_spec member).2
  have stopEq : block.stop = block.addr + block.size := rfl
  rcases isTag.place with rfl | rfl | rfl <;>
    rcases fresh.apart_block layout member with before | after <;> omega

end Fresh

/-- Formatting a fresh chunk: its run goes in front of its bin. -/
theorem initializeFreeRun_indexed {chunk : ChunkNode} {binned : Nat → List Nat}
    (heap : HeapOk cfg s blocks) (index : FreeIndex s binned (freeRuns blocks))
    (fresh : Fresh s.chunks chunk) :
    let added := ({ s with chunks := chunk :: s.chunks } : State)
    HeapOk cfg (added.initializeFreeRun chunk)
        (chunk.wholeRun :: chunk.epilogue :: blocks) ∧
      FreeIndex (added.initializeFreeRun chunk)
        (Function.update binned (binIndexFor chunk.wholeRun.size)
          (chunk.first :: binned (binIndexFor chunk.wholeRun.size)))
        (freeRuns (chunk.wholeRun :: chunk.epilogue :: blocks)) ∧
      (∀ word, ¬ (chunk.first ≤ word ∧ word + 8 ≤ chunk.first + chunk.bytes) →
        ¬ LinkWord (freeRuns blocks) word →
          (added.initializeFreeRun chunk).mem word = s.mem word) ∧
        (added.initializeFreeRun chunk).outer = added.outer := by
  dsimp only
  generalize addedEq : ({ s with chunks := chunk :: s.chunks } : State) = added
  have addedMem : added.mem = s.mem := by rw [← addedEq]
  have addedBins : added.bins = s.bins := by rw [← addedEq]
  have addedMask : added.binNonemptyMask = s.binNonemptyMask := by rw [← addedEq]
  have addedChunks : added.chunks = chunk :: s.chunks := by rw [← addedEq]
  have layout := heap.layout
  have newLayout := fresh.layoutOk layout
  have large := fresh.large
  have bounded := fresh.bounded
  have positive := fresh.positive
  have runBytes : wrapSub chunk.bytes epilogueSize = chunk.bytes - 16 :=
    wrapSub_eq (by simp only [epilogueSize_eq]; omega) (by omega)
  have freeEq : freeRuns (chunk.wholeRun :: chunk.epilogue :: blocks) =
      insert chunk.wholeRun (freeRuns blocks) := by
    have inserted :
        freeRuns ([] ++ chunk.wholeRun :: chunk.epilogue :: blocks) =
          insert chunk.wholeRun (freeRuns ([] ++ chunk.epilogue :: blocks)) :=
      freeRuns_insert rfl
    have skipped : freeRuns ([] ++ chunk.epilogue :: blocks) =
        freeRuns ([] ++ blocks) :=
      freeRuns_skip (by simp [ChunkNode.epilogue])
    simp only [List.nil_append] at inserted skipped
    rw [inserted, skipped]
  have notMember : chunk.wholeRun ∉ freeRuns blocks := fun member => by
    have apart := fresh.apart_block layout member.1
    simp only [ChunkNode.wholeRun, Block.stop] at apart
    omega
  have sizeAligned : 4 ∣ chunk.bytes - 16 := by
    have := fresh.sizeAligned
    omega
  have sizeField : sizeField (pack (chunk.bytes - 16) true false) =
      chunk.bytes - 16 := sizeField_pack sizeAligned (by omega) _ _
  unfold State.initializeFreeRun
  dsimp only
  rw [runBytes]
  generalize markedEq : (added.setHeader chunk.first (chunk.bytes - 16) true
    false).writeFooter chunk.first = marked
  have markedMem : marked.mem = Function.update (Function.update s.mem
      chunk.first (pack (chunk.bytes - 16) true false))
      (chunk.first + (chunk.bytes - 16) - 8) (chunk.bytes - 16) := by
    rw [← markedEq]
    simp [State.writeFooter, State.setHeader, State.footerPtr, State.runSize,
      sizeField, addedMem]
  have markedOuter : marked.outer = added.outer := by rw [← markedEq]; rfl
  have markedFrame : ∀ word, ¬ (chunk.first ≤ word ∧
      word + 8 ≤ chunk.first + chunk.bytes) → marked.mem word = s.mem word := by
    intro word outside
    rw [markedMem, Function.update_of_ne (by omega),
      Function.update_of_ne (by omega)]
  have markedIndex : FreeIndex marked binned (freeRuns blocks) := by
    refine index.congr ?_ ?_ fun word isLink => markedFrame word fun place =>
      fresh.not_linkWord layout place.1 (by omega) isLink
    · rw [← markedEq]
      exact addedBins
    · rw [← markedEq]
      exact addedMask
  have markedSize : marked.runSize chunk.first = chunk.bytes - 16 := by
    unfold State.runSize
    rw [markedMem, Function.update_of_ne (by omega), Function.update_self,
      sizeField]
  have linkable := newLayout.linkable
  rw [freeEq] at linkable
  have linkFrame : ∀ word,
      ¬ LinkWord (insert chunk.wholeRun (freeRuns blocks)) word →
      (marked.linkFree chunk.first).mem word = marked.mem word := fun word =>
    markedIndex.linkFree_frame linkable markedSize
  have linkedIndex := markedIndex.linkFree linkable
    markedSize notMember
  generalize linkedEq : marked.linkFree chunk.wholeRun.addr = linked at *
  have linkedSame : marked.linkFree chunk.first = linked := linkedEq
  rw [linkedSame] at linkFrame ⊢
  have linkedOuter : linked.outer = added.outer := by
    rw [← linkedEq, State.linkFree_outer, markedOuter]
  have epilogueNotLink : ∀ word, chunk.first + (chunk.bytes - 16) ≤ word →
      word < chunk.first + chunk.bytes →
      ¬ LinkWord (insert chunk.wholeRun (freeRuns blocks)) word := by
    intro word lower upper isLink
    rcases isLink.of_insert with own | other
    · simp only [ChunkNode.wholeRun] at own
      omega
    · exact fresh.not_linkWord layout (by omega) upper other
  have endFrame : ∀ word, ¬ (chunk.first + (chunk.bytes - 16) ≤ word ∧
      word + 8 ≤ chunk.first + chunk.bytes) →
      ((linked.setHeader (chunk.first + (chunk.bytes - 16)) 0 false true).write
        (ownerWord (chunk.first + (chunk.bytes - 16))) 0).mem word =
        linked.mem word := by
    intro word outside
    rw [State.write_mem, ownerWord_eq, Function.update_of_ne (by omega)]
    exact Function.update_of_ne (by omega) _ _
  have frame : ∀ word, ¬ (chunk.first ≤ word ∧
      word + 8 ≤ chunk.first + chunk.bytes) → ¬ LinkWord (freeRuns blocks) word →
      ((linked.setHeader (chunk.first + (chunk.bytes - 16)) 0 false true).write
        (ownerWord (chunk.first + (chunk.bytes - 16))) 0).mem word =
        s.mem word := by
    intro word outside notLink
    rw [endFrame word (by omega), linkFrame word, markedFrame word outside]
    intro isLink
    rcases isLink.of_insert with own | other
    · simp only [ChunkNode.wholeRun] at own
      omega
    · exact notLink other
  have newIndex : FreeIndex ((linked.setHeader (chunk.first + (chunk.bytes - 16)) 0
      false true).write (ownerWord (chunk.first + (chunk.bytes - 16))) 0)
      (Function.update binned (binIndexFor chunk.wholeRun.size)
        (chunk.first :: binned (binIndexFor chunk.wholeRun.size)))
      (freeRuns (chunk.wholeRun :: chunk.epilogue :: blocks)) := by
    rw [freeEq]
    refine linkedIndex.congr rfl rfl fun word isLink => endFrame word ?_
    exact fun place => epilogueNotLink word place.1 (by omega) isLink
  refine ⟨⟨?_, ⟨?_, ?_, ?_⟩, ⟨_, newIndex⟩⟩, newIndex, frame, linkedOuter⟩
  · have chunks : linked.chunks = added.chunks :=
      State.chunks_of_outer linkedOuter
    show LayoutOk linked.chunks _
    rw [chunks, addedChunks]
    exact newLayout
  · refine ⟨?_, ?_⟩
    · show State.mem _ chunk.first = _
      rw [endFrame _ (by omega), linkFrame _ ?_, markedMem,
        Function.update_of_ne (by omega), Function.update_self]
      · rfl
      · intro isLink
        rcases isLink.of_insert with own | other
        · simp only [ChunkNode.wholeRun] at own
          omega
        · exact fresh.not_linkWord layout le_rfl (by omega) other
    · show State.mem _ (chunk.first + (chunk.bytes - 16) - 8) = _
      rw [endFrame _ (by omega), linkFrame _ ?_, markedMem,
        Function.update_self]
      · rfl
      · intro isLink
        rcases isLink.of_insert with own | other
        · simp only [ChunkNode.wholeRun] at own
          have := fresh.sizeAligned
          omega
        · exact fresh.not_linkWord layout (by omega) (by omega) other
  · show State.mem _ (chunk.first + (chunk.bytes - 16)) = _
    rw [State.write_mem, ownerWord_eq, Function.update_of_ne (by omega)]
    exact Function.update_self _ _ _
  · refine heap.tagged.congr fun block member word isTag => ?_
    refine frame word (fun place => ?_) fun isLink =>
      layout.not_tagWord_of_linkWord member isLink isTag
    exact fresh.not_tagWord layout member place.1 (by omega) isTag

theorem initializeFreeRun_spec {chunk : ChunkNode}
    (heap : HeapOk cfg s blocks) (fresh : Fresh s.chunks chunk) :
    let added := ({ s with chunks := chunk :: s.chunks } : State)
    HeapOk cfg (added.initializeFreeRun chunk)
        (chunk.wholeRun :: chunk.epilogue :: blocks) ∧
      (∀ word, ¬ (chunk.first ≤ word ∧ word + 8 ≤ chunk.first + chunk.bytes) →
        ¬ LinkWord (freeRuns blocks) word →
          (added.initializeFreeRun chunk).mem word = s.mem word) ∧
        (added.initializeFreeRun chunk).outer = added.outer := by
  obtain ⟨binned, index⟩ := heap.indexed
  obtain ⟨newHeap, _, rest⟩ := initializeFreeRun_indexed heap index fresh
  exact ⟨newHeap, rest⟩

theorem initializeFreeRun_step {chunk : ChunkNode}
    (heap : HeapOk cfg s blocks) (fresh : Fresh s.chunks chunk) :
    let added := ({ s with chunks := chunk :: s.chunks } : State)
    HeapStep cfg s (added.initializeFreeRun chunk) (usedRuns blocks)
        (usedRuns blocks) ∧
      (added.initializeFreeRun chunk).outer =
        (chunk :: s.chunks, s.nextGrowth, s.deferredBytes, s.remoteHead) := by
  obtain ⟨newHeap, frame, outer⟩ := initializeFreeRun_spec heap fresh
  dsimp only at newHeap frame outer ⊢
  have chunks := State.chunks_of_outer outer
  refine ⟨⟨⟨fun run member word lower upper => ?_, fun word notIn => ?_,
    fun word behind => ?_, fun other member => ?_⟩, _, newHeap,
      wholeChunk_usedRuns⟩, outer⟩
  · refine frame word (fun place => ?_) fun isLink =>
      heap.not_privateWord member lower upper
        (heap.privateWord_of_linkWord isLink)
    have apartRun := fresh.apart_block heap.layout member.1
    omega
  · refine frame word (fun place => ?_) fun isLink => ?_
    · exact notIn ⟨chunk, by rw [chunks]; exact List.mem_cons_self, place.1,
        by omega⟩
    · obtain ⟨other, member, place⟩ := heap.inChunks_of_privateWord
        (heap.privateWord_of_linkWord isLink)
      exact notIn ⟨other, by
        rw [chunks]
        exact List.mem_cons_of_mem _ member, place⟩
  · have notPrivate := heap.not_privateWord_of_behind behind
    obtain ⟨other, member, lower, upper⟩ := behind
    have apart := fresh.apart other member
    have large := heap.layout.chunksOk.large other member
    refine frame word (fun place => by omega) fun isLink =>
      notPrivate (heap.privateWord_of_linkWord isLink)
  · rw [chunks]
    exact List.mem_cons_of_mem _ member

theorem ownedChunkGranularity_spec :
    16 ∣ State.ownedChunkGranularity cfg ∧ State.ownedChunkGranularity cfg < 2 ^ 64 := by
  unfold State.ownedChunkGranularity
  split
  · decide
  · exact ⟨cfg.pageAligned, cfg.pageBound⟩

theorem ownedChunkBytesFor_spec {bytes chunkBytes : Nat}
    (bounded : bytes < 2 ^ 64)
    (result : State.ownedChunkBytesFor cfg bytes = .ok chunkBytes) :
    bytes ≤ chunkBytes ∧ 64 ≤ chunkBytes ∧ chunkBytes < 2 ^ 64 ∧
      State.ownedChunkGranularity cfg ∣ chunkBytes := by
  obtain ⟨_, granularityBound⟩ := ownedChunkGranularity_spec
  unfold State.ownedChunkBytesFor at result
  cases rounded : checkedRoundToMultipleOf (max bytes minChunkBytes)
      (State.ownedChunkGranularity cfg) with
  | none =>
      rw [rounded] at result
      cases result
  | some value =>
      rw [rounded] at result
      obtain rfl := Except.ok.inj result
      simp only [minChunkBytes_eq] at rounded
      obtain ⟨covers, divides, _, _⟩ :=
        checkedRoundToMultipleOf_eq_some granularityBound rounded
      have := checkedRoundToMultipleOf_lt (by omega) granularityBound rounded
      exact ⟨by omega, by omega, this, divides⟩

/-- Memory obtained for a chunk of whole pages has exactly the requested
length. -/
theorem allocateOwnedMemory_spec {os : Os} {chunks : List ChunkNode}
    {bytes base obtained : Nat} (large : 64 ≤ bytes)
    (whole : State.ownedChunkGranularity cfg ∣ bytes)
    (result : State.allocateOwnedMemory cfg os chunks bytes runAlignment =
      some (base, obtained)) :
    obtained = bytes ∧ os.grant chunks bytes = some base := by
  unfold State.allocateOwnedMemory at result
  rw [if_neg (by simp [hasSingleBit]; omega)] at result
  unfold State.ownedChunkGranularity at whole
  cases huge : cfg.huge with
  | true =>
      rw [if_pos huge] at result whole
      rw [if_neg (by decide),
        checkedRoundToMultipleOf_of_dvd (by decide) whole] at result
      cases granted : os.grant chunks bytes <;> simp_all
  | false =>
      rw [if_neg (by simp [huge])] at result
      cases granted : os.grant chunks bytes <;> simp_all

/-- What a successful or failed `_add_owned_chunk` does to the heap. -/
theorem addOwnedChunk_spec {os : Os} {bytes : Nat} (heap : HeapOk cfg s blocks)
    (bounded : bytes < 2 ^ 64) :
    ((∃ exn, (s.addOwnedChunk cfg os bytes).2 = .error exn) ∧
        (s.addOwnedChunk cfg os bytes).1 = s) ∨
      ∃ chunk, Fresh s.chunks chunk ∧
        (s.addOwnedChunk cfg os bytes).2 = .ok chunk.bytes ∧
        bytes ≤ chunk.bytes ∧ chunk.bytes < 2 ^ 64 ∧
        os.grant s.chunks chunk.bytes = some chunk.first ∧
        HeapStep cfg s (s.addOwnedChunk cfg os bytes).1 (usedRuns blocks)
          (usedRuns blocks) ∧
        (s.addOwnedChunk cfg os bytes).1.outer =
          (chunk :: s.chunks, s.nextGrowth, s.deferredBytes, s.remoteHead) := by
  unfold State.addOwnedChunk
  cases sized : State.ownedChunkBytesFor cfg bytes with
  | error exn => exact Or.inl ⟨⟨exn, rfl⟩, rfl⟩
  | ok chunkBytes =>
      dsimp only
      cases obtained : State.allocateOwnedMemory cfg os s.chunks chunkBytes
          runAlignment with
      | none => exact Or.inl ⟨⟨_, rfl⟩, rfl⟩
      | some memory =>
          obtain ⟨base, arenaBytes⟩ := memory
          obtain ⟨covers, large, chunkBound, whole⟩ :=
            ownedChunkBytesFor_spec bounded sized
          obtain ⟨rfl, granted⟩ := allocateOwnedMemory_spec large whole obtained
          obtain ⟨positive, aligned, inSpace, apart⟩ := os.sound _ _ _ granted
          have fresh : Fresh s.chunks ⟨base, arenaBytes, base, arenaBytes⟩ :=
            { aligned := aligned
              positive := positive
              sizeAligned :=
                Nat.dvd_trans (ownedChunkGranularity_spec).1 whole
              large := large
              bounded := inSpace
              apart := apart }
          obtain ⟨step, outer⟩ := initializeFreeRun_step heap fresh
          exact Or.inr ⟨_, fresh, rfl, covers, chunkBound, granted, step, outer⟩

end Runner

end Allocazam
