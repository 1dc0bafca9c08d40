import Allocazam.RunnerRetiling

/-!
# Operations on single runs

The effect of allocating from a free run, of expanding and of deallocating an
allocated run: each leads to a legal heap, changes the set of allocated runs by
that one run and keeps the owner word and the payload of every other one.
-/

namespace Allocazam

namespace Runner

variable {cfg : Config} {s t u : State} {blocks : List Block}

/-- The owner words and payloads of the given runs are the same in both
states. -/
def Keeps (s t : State) (runs : Set Block) : Prop :=
  ∀ run ∈ runs, ∀ word, run.addr < word → word < run.stop →
    t.mem word = s.mem word

def InChunks (s : State) (word : Nat) : Prop :=
  ∃ chunk ∈ s.chunks, chunk.first ≤ word ∧ word < chunk.first + chunk.bytes

def BehindEpilogue (s : State) (word : Nat) : Prop :=
  ∃ chunk ∈ s.chunks, chunk.first + chunk.bytes < word + 16 ∧
    word < chunk.first + chunk.bytes

/-- What a step from `s` to `t` leaves alone: the contents of the runs `kept`,
all memory outside the chunks, the ends of the chunks, and the chunks there are. -/
structure Effect (s t : State) (kept : Set Block) : Prop where
  keeps : Keeps s t kept
  outside : ∀ word, ¬ InChunks t word → t.mem word = s.mem word
  ends : ∀ word, BehindEpilogue s word → t.mem word = s.mem word
  chunks : ∀ chunk ∈ s.chunks, chunk ∈ t.chunks

namespace Effect

variable {kept kept' : Set Block}

theorem refl : Effect s s kept where
  keeps _ _ _ _ _ := rfl
  outside _ _ := rfl
  ends _ _ := rfl
  chunks _ member := member

theorem trans {r : State} (first : Effect s t kept)
    (second : Effect t r kept') : Effect s r (kept ∩ kept') where
  keeps run member word lower upper :=
    (second.keeps run member.2 word lower upper).trans
      (first.keeps run member.1 word lower upper)
  outside word notIn := by
    rw [second.outside word notIn, first.outside word]
    rintro ⟨chunk, member, place⟩
    exact notIn ⟨chunk, second.chunks chunk member, place⟩
  ends word := by
    rintro ⟨chunk, member, place⟩
    rw [second.ends word ⟨chunk, first.chunks chunk member, place⟩]
    exact first.ends word ⟨chunk, member, place⟩
  chunks chunk member := second.chunks chunk (first.chunks chunk member)

theorem mono (effect : Effect s t kept) (subset : kept' ⊆ kept) :
    Effect s t kept' :=
  { effect with keeps := fun run member => effect.keeps run (subset member) }

theorem congr {s' t' : State} (effect : Effect s t kept)
    (sourceChunks : s'.chunks = s.chunks) (sourceMem : s'.mem = s.mem)
    (chunks : t'.chunks = t.chunks) (mem : t'.mem = t.mem) :
    Effect s' t' kept where
  keeps run member word lower upper := by
    rw [mem, sourceMem]
    exact effect.keeps run member word lower upper
  outside word notIn := by
    rw [mem, sourceMem]
    refine effect.outside word ?_
    rintro ⟨chunk, member, place⟩
    exact notIn ⟨chunk, by rw [chunks]; exact member, place⟩
  ends word := by
    rintro ⟨chunk, member, place⟩
    rw [mem, sourceMem]
    exact effect.ends word ⟨chunk, sourceChunks ▸ member, place⟩
  chunks chunk member := by
    rw [chunks]
    exact effect.chunks chunk (by rwa [sourceChunks] at member)

end Effect

/-- A step to a legal heap with the allocated runs `used`. -/
structure HeapStep (cfg : Config) (s t : State) (kept used : Set Block) : Prop
    extends Effect s t kept where
  heap : ∃ new, HeapOk cfg t new ∧ usedRuns new = used

namespace HeapStep

variable {kept kept' used used' : Set Block}

theorem refl (heap : HeapOk cfg s blocks) :
    HeapStep cfg s s kept (usedRuns blocks) :=
  ⟨Effect.refl, blocks, heap, rfl⟩

theorem trans {r : State} (first : HeapStep cfg s t kept used)
    (second : HeapStep cfg t r kept' used') :
    HeapStep cfg s r (kept ∩ kept') used' :=
  ⟨first.toEffect.trans second.toEffect, second.heap⟩

theorem mono (step : HeapStep cfg s t kept used) (subset : kept' ⊆ kept) :
    HeapStep cfg s t kept' used :=
  ⟨step.toEffect.mono subset, step.heap⟩

/-- Only the memory, the bins and the chunks matter. -/
theorem congr {s' t' : State} (step : HeapStep cfg s t kept used)
    (sourceChunks : s'.chunks = s.chunks) (sourceMem : s'.mem = s.mem)
    (chunks : t'.chunks = t.chunks) (mem : t'.mem = t.mem)
    (bins : t'.bins = t.bins) (mask : t'.binNonemptyMask = t.binNonemptyMask) :
    HeapStep cfg s' t' kept used := by
  obtain ⟨new, heap, same⟩ := step.heap
  exact ⟨step.toEffect.congr sourceChunks sourceMem chunks mem, new,
    heap.congr chunks mem bins mask, same⟩

end HeapStep

theorem Tagged.exists_flag {mem : Nat → Nat} {before : Bool}
    (tagged : Tagged cfg mem before blocks) {block : Block}
    (member : block ∈ blocks) : ∃ flag, BlockTagged cfg mem flag block := by
  induction blocks generalizing before with
  | nil => simp at member
  | cons head rest ih =>
      rcases List.mem_cons.mp member with rfl | later
      · exact ⟨before, tagged.1⟩
      · exact ih tagged.2 later

namespace HeapOk

variable (heap : HeapOk cfg s blocks) {block : Block}

include heap

theorem inChunks_of_holds (member : block ∈ blocks) {word : Nat}
    (holds : block.Holds word) : InChunks s word := by
  obtain ⟨chunk, chunkMember, lower, upper, _⟩ := heap.layout.mem_chunk member
  obtain ⟨above, below⟩ := holds
  exact ⟨chunk, chunkMember, by omega, by omega⟩

theorem inChunks_of_privateWord {word : Nat}
    (isPrivate : PrivateWord blocks word) : InChunks s word := by
  obtain ⟨block, member, rfl | ⟨_, holds⟩⟩ := isPrivate
  · exact heap.inChunks_of_holds member (heap.layout.holds_addr member)
  · exact heap.inChunks_of_holds member holds

/-- Behind the header of an epilogue there is nothing but the epilogue. -/
theorem fence_of_behind {word : Nat} (behind : BehindEpilogue s word)
    (member : block ∈ blocks) (holds : block.Holds word) :
    block.kind = .fence ∧ word ≠ block.addr := by
  obtain ⟨chunk, chunkMember, lower, upper⟩ := behind
  obtain ⟨front, inner, last, back, listed, stops, _⟩ :=
    heap.layout.fenced.exists_arena (List.mem_map_of_mem (f := ChunkNode.arena) chunkMember)
  unfold ChunkNode.arena at stops
  have fence : (⟨last, 16, .fence⟩ : Block) ∈ blocks := by simp [listed]
  obtain rfl := heap.layout.eq_of_holds member fence holds
    ⟨by simp only at stops ⊢; omega, by simp only [Block.stop] at stops ⊢; omega⟩
  exact ⟨rfl, by simp only at stops ⊢; omega⟩

theorem not_privateWord_of_behind {word : Nat} (behind : BehindEpilogue s word) :
    ¬ PrivateWord blocks word := by
  rintro ⟨block, member, rfl | ⟨free, holds⟩⟩
  · exact (heap.fence_of_behind behind member (heap.layout.holds_addr member)).2 rfl
  · have fence := (heap.fence_of_behind behind member holds).1
    rw [free] at fence
    cases fence

theorem runSize (member : block ∈ blocks) (notFence : block.kind ≠ .fence) :
    s.runSize block.addr = block.size := by
  obtain ⟨flag, tagged⟩ := heap.tagged.exists_flag member
  exact tagged.runSize (heap.layout.packable member) notFence

theorem isFree (member : block ∈ blocks) (notFence : block.kind ≠ .fence) :
    s.isFree block.addr = block.isFree := by
  obtain ⟨flag, tagged⟩ := heap.tagged.exists_flag member
  exact tagged.isFree (heap.layout.packable member) notFence

theorem owner (member : block ∈ usedRuns blocks) :
    s.mem (block.addr + 8) = cfg.self := by
  obtain ⟨flag, tagged⟩ := heap.tagged.exists_flag member.1
  unfold BlockTagged at tagged
  rw [member.2] at tagged
  exact tagged.2

end HeapOk

namespace Stretch

variable {front old back : List Block} {next : Block} {first size : Nat}
  (stretch : Stretch cfg s u front old next back first size)
  (nonempty : old ≠ [])

include stretch nonempty

omit nonempty in
theorem inChunks {word : Nat} (lower : first ≤ word)
    (upper : word < first + size) : InChunks s word := by
  obtain ⟨block, member, holds⟩ := stretch.tiles.exists_holds lower upper
  exact stretch.heap.inChunks_of_holds (by simp [member]) holds

omit nonempty in
theorem not_behind {word : Nat} (behind : BehindEpilogue s word) :
    ¬ (first ≤ word ∧ word < first + size) := by
  rintro ⟨lower, upper⟩
  obtain ⟨block, member, holds⟩ := stretch.tiles.exists_holds lower upper
  exact stretch.noFence block member
    (stretch.heap.fence_of_behind behind (by simp [member]) holds).1

theorem mem_old {run : Block}
    (member : run ∈ front ++ old ++ next :: back) {word : Nat}
    (holds : run.Holds word) (lower : first ≤ word)
    (upper : word < first + size) : run ∈ old := by
  by_contra notOld
  have inRest : run ∈ front ++ next :: back := by
    simp only [List.mem_append, List.mem_cons] at member ⊢
    tauto
  obtain ⟨above, below⟩ := holds
  have sizePositive := (stretch.first_spec nonempty).2.2.1
  rcases stretch.rest_apart (by omega) inRest with before | after <;> omega

theorem heapStep_of_granted {granted : Nat} {used : Set Block}
    (grant : Granted cfg s t (front ++ old ++ next :: back)
      (front ++ next :: back) first granted size)
    (covers : ∀ run ∈ old, run.kind = .used → run.stop ≤ first + granted)
    (result : insert ⟨first, granted, .used⟩ (usedRuns (front ++ next :: back)) =
      used) :
    HeapStep cfg s t (usedRuns (front ++ old ++ next :: back)) used := by
  have heap := stretch.heap
  obtain ⟨aligned, positive, large, _⟩ := stretch.first_spec nonempty
  have chunks : t.chunks = s.chunks := State.chunks_of_outer grant.outer
  refine ⟨⟨?_, fun word notIn => ?_, fun word behind => ?_,
    fun chunk member => by rwa [chunks]⟩, by rw [← result]; exact grant.heap⟩
  · intro run member word lower upper
    have notPrivate := heap.not_privateWord member lower upper
    by_cases inside : first ≤ word ∧ word < first + size
    · have inOld := stretch.mem_old nonempty member.1 ⟨lower.le, upper⟩
        inside.1 inside.2
      have := covers run inOld member.2
      by_cases isOwner : word = first + 8
      · have runLower := (stretch.tiles.bounds run inOld).1
        have runAligned := heap.layout.addr_dvd member.1
        have runFirst : run.addr = first := by omega
        rw [isOwner, grant.owner, ← runFirst, heap.owner member]
      · exact grant.frame word notPrivate isOwner (by omega)
    · exact grant.frame word notPrivate (by omega) (by omega)
  · have inChunksEq : ∀ word, InChunks s word → InChunks t word := by
      rintro word ⟨chunk, member, place⟩
      exact ⟨chunk, by rwa [chunks], place⟩
    have outside : ¬ (first ≤ word ∧ word < first + size) := fun inside =>
      notIn (inChunksEq word (stretch.inChunks inside.1 inside.2))
    refine grant.frame word ?_ (by omega) (by omega)
    exact fun isPrivate =>
      notIn (inChunksEq word (heap.inChunks_of_privateWord isPrivate))
  · have elsewhere := stretch.not_behind behind
    exact grant.frame word (heap.not_privateWord_of_behind behind) (by omega)
      (by omega)

end Stretch

section Allocate

variable {block : Block} {needed : Nat} (heap : HeapOk cfg s blocks)
  (member : block ∈ freeRuns blocks) (aligned : 16 ∣ needed)
  (large : 48 ≤ needed) (fits : needed ≤ block.size)

include heap member aligned large fits

theorem allocateFromFreeRun_spec :
    ∃ granted, needed ≤ granted ∧
      HeapStep cfg s (s.allocateFromFreeRun cfg block.addr needed).1
        (usedRuns blocks)
        (insert ⟨block.addr, granted, .used⟩ (usedRuns blocks)) ∧
      (s.allocateFromFreeRun cfg block.addr needed).1.outer = s.outer := by
  obtain ⟨inBlocks, free⟩ := member
  obtain ⟨front, back, rfl⟩ := List.append_of_mem inBlocks
  obtain ⟨later, rest, rfl, separated, stretch⟩ :=
    (Stretch.start heap).absorbNext free
  have notFence : block.kind ≠ .fence := by rw [free]; decide
  have bounded := heap.layout.size_lt inBlocks
  have sizeEq := heap.runSize inBlocks notFence
  have flagEq : s.prevIsFree block.addr = carryFree false front := by
    have tagged := heap.tagged
    rw [tagged_append] at tagged
    exact tagged.2.1.prevIsFree (heap.layout.packable inBlocks) notFence
  have remEq : wrapSub block.size needed = block.size - needed :=
    wrapSub_eq fits bounded
  rw [Nat.zero_add] at stretch
  have listed : front ++ ([] ++ [block]) ++ later :: rest =
      front ++ block :: later :: rest := by simp
  have usedSame : usedRuns (front ++ later :: rest) =
      usedRuns (front ++ block :: later :: rest) := by
    rw [usedRuns_skip (show block.kind ≠ .used by rw [free]; decide)]
  unfold State.allocateFromFreeRun State.addLiveBytes
  simp only [sizeEq, flagEq, remEq, minFreeRunSize_eq,
    splitRemainderThreshold_eq]
  by_cases split : block.size - needed ≥ 48 + 64
  · rw [if_pos split]
    have grant := stretch.makeRemainder (by simp) separated large aligned
      (by omega) (v := ((s.unlinkFree block.addr).setHeader block.addr needed
        false (carryFree false front)).record cfg fun stats =>
          { stats with splitCount := wrapAdd stats.splitCount 1 })
      (by simp [State.setHeader]) (by simp [State.setHeader])
      (by simp [State.setHeader]) (by simp [State.setHeader])
    have step := stretch.heapStep_of_granted (by simp) grant
      (by simp [free]) rfl
    rw [listed, usedSame] at step
    exact ⟨needed, le_rfl, step.congr rfl rfl (by simp) (by simp) (by simp)
      (by simp), by simpa using grant.outer⟩
  · rw [if_neg split]
    have grant := stretch.takeWhole (by simp) _ rfl
    have step := stretch.heapStep_of_granted (by simp) grant
      (by simp [free]) rfl
    rw [listed, usedSame] at step
    exact ⟨block.size, fits, step.congr rfl rfl (by simp) (by simp) (by simp)
      (by simp), by simpa using grant.outer⟩

end Allocate

namespace Stretch

variable {front old back : List Block} {next : Block} {first size : Nat}

/-- What `_next_run` finds behind a run that ends the stretch. -/
theorem nextRun_spec {h : Nat}
    (stretch : Stretch cfg s u front old next back first size)
    (ends : h + u.runSize h = first + size) :
    u.nextRun h = (if next.kind = .fence then 0 else next.addr) ∧
      (next.kind ≠ .fence → u.isFree next.addr = next.isFree ∧
        u.runSize next.addr = next.size) := by
  have packable := stretch.next_packable
  constructor
  · exact stretch.next_tagged.nextRun packable (stretch.adjacent.trans ends.symm)
  · intro notFence
    exact ⟨stretch.next_tagged.isFree packable notFence,
      stretch.next_tagged.runSize packable notFence⟩

/-- What `_prev_run` finds in front of the stretch, if the run there is free. -/
theorem prevRun_spec
    (stretch : Stretch cfg s u front old next back first size)
    (nonempty : old ≠ []) (flagged : u.prevIsFree first = true) :
    ∃ earlier prev, front = earlier ++ [prev] ∧ prev.kind = .free ∧
      u.prevRun first = prev.addr ∧ u.isFree prev.addr = true ∧
      u.runSize prev.addr = prev.size := by
  rw [stretch.prevIsFree_first nonempty] at flagged
  obtain ⟨earlier, prev, rfl, free⟩ := exists_last_of_carryFree flagged
  obtain ⟨adjacent, _, _⟩ := stretch.absorbPrev rfl free nonempty
  have notFence : prev.kind ≠ .fence := by rw [free]; decide
  have inBlocks : prev ∈ earlier ++ [prev] ++ old ++ next :: back := by simp
  obtain ⟨flag, tagged⟩ := stretch.tagged.exists_flag inBlocks
  have packable := stretch.heap.layout.packable inBlocks
  have large := (packable notFence).1
  have footer : u.mem (first - 8) = prev.size := by
    unfold BlockTagged at tagged
    rw [free] at tagged
    rw [← adjacent]
    exact tagged.2
  refine ⟨earlier, prev, rfl, free, ?_, ?_, tagged.runSize packable notFence⟩
  · unfold State.prevRun
    simp only [footer]
    rw [if_neg (by omega)]
    omega
  · rw [tagged.isFree packable notFence]
    simp [Block.isFree, free]

theorem coalesceNext_absorbs {block : Block}
    (stretch : Stretch cfg s u front [block] next back block.addr block.size)
    (free : next.kind = .free) :
    u.coalesceNext cfg block.addr block.size =
      ((u.unlinkFree next.addr).record cfg fun stats => { stats with
        coalesceNextCount := wrapAdd stats.coalesceNextCount 1 },
        block.size + next.size) := by
  have layout := stretch.heap.layout
  have notFence := stretch.noFence block (by simp)
  have inBlocks : block ∈ front ++ [block] ++ next :: back := by simp
  obtain ⟨flag, tagged⟩ := stretch.tagged.exists_flag inBlocks
  have sizeEq := tagged.runSize (layout.packable inBlocks) notFence
  obtain ⟨nextEq, nextSpec⟩ := stretch.nextRun_spec
    (show block.addr + u.runSize block.addr = block.addr + block.size by
      rw [sizeEq])
  have nextPositive := layout.addr_pos next_mem
  have nextNotFence : next.kind ≠ .fence := by rw [free]; decide
  have isFree : u.isFree next.addr = true := by
    rw [(nextSpec nextNotFence).1]
    simp [Block.isFree, free]
  obtain ⟨later, rest, rfl, _, absorbed⟩ := stretch.absorbNext free
  have nextMember : next ∈ front ++ ([block] ++ [next]) ++ later :: rest := by
    simp
  obtain ⟨flag, nextTagged⟩ := absorbed.tagged.exists_flag nextMember
  have nextSize := nextTagged.runSize
    (absorbed.heap.layout.packable nextMember) nextNotFence
  have bounds := absorbed.bounds
  unfold State.coalesceNext
  dsimp only
  rw [nextEq, if_neg nextNotFence, if_pos ⟨by omega, isFree⟩, nextSize,
    wrapAdd_eq (by omega)]

/-- Nothing is absorbed where the run behind is not free. -/
theorem coalesceNext_stays {block : Block}
    (stretch : Stretch cfg s u front [block] next back block.addr block.size)
    (nextUsed : next.kind ≠ .free) :
    u.coalesceNext cfg block.addr block.size = (u, block.size) := by
  have inBlocks : block ∈ front ++ [block] ++ next :: back := by simp
  obtain ⟨flag, tagged⟩ := stretch.tagged.exists_flag inBlocks
  have sizeEq := tagged.runSize (stretch.heap.layout.packable inBlocks)
    (stretch.noFence block (by simp))
  obtain ⟨nextEq, nextSpec⟩ := stretch.nextRun_spec
    (show block.addr + u.runSize block.addr = block.addr + block.size by
      rw [sizeEq])
  unfold State.coalesceNext
  dsimp only
  rw [nextEq]
  have notAbsorbed : ¬ ((if next.kind = .fence then 0 else next.addr) ≠ 0 ∧
      u.isFree (if next.kind = .fence then 0 else next.addr) = true) := by
    by_cases isFence : next.kind = .fence
    · simp [isFence]
    · rw [if_neg isFence, (nextSpec isFence).1]
      simp [Block.isFree, nextUsed]
  rw [if_neg notAbsorbed]

theorem coalescePrev_absorbs {earlier : List Block} {prev : Block}
    (stretch : Stretch cfg s u (earlier ++ [prev]) old next back first size)
    (nonempty : old ≠ []) (free : prev.kind = .free) :
    u.coalescePrev cfg first size =
      ((u.unlinkFree prev.addr).record cfg fun stats => { stats with
        coalescePrevCount := wrapAdd stats.coalescePrevCount 1 },
        prev.addr, prev.size + size) := by
  have layout := stretch.heap.layout
  have flagged : u.prevIsFree first = true := by
    rw [stretch.prevIsFree_first nonempty, carryFree_append]
    simp [Block.isFree, free]
  obtain ⟨_, other, listed, _, prevEq, isFree, _⟩ :=
    stretch.prevRun_spec nonempty flagged
  obtain rfl : prev = other :=
    (List.cons.inj (List.append_inj' listed rfl).2).1
  obtain ⟨adjacent, _, absorbed⟩ := stretch.absorbPrev rfl free nonempty
  have notFence : prev.kind ≠ .fence := by rw [free]; decide
  have positive := layout.addr_pos
    (show prev ∈ earlier ++ [prev] ++ old ++ next :: back by simp)
  have prevMember : prev ∈ earlier ++ prev :: old ++ next :: back := by simp
  obtain ⟨flag, prevTagged⟩ := absorbed.tagged.exists_flag prevMember
  have prevSize := prevTagged.runSize
    (absorbed.heap.layout.packable prevMember) notFence
  have bounds := absorbed.bounds
  unfold State.coalescePrev
  rw [if_pos flagged, prevEq]
  dsimp only
  rw [if_pos ⟨by omega, isFree⟩, prevSize, wrapAdd_eq (by omega),
    Nat.add_comm size]

/-- Nothing is absorbed where the run before is not free. -/
theorem coalescePrev_stays
    (stretch : Stretch cfg s u front old next back first size)
    (nonempty : old ≠ []) (prevUsed : carryFree false front = false) :
    u.coalescePrev cfg first size = (u, first, size) := by
  have flag := stretch.prevIsFree_first nonempty
  unfold State.coalescePrev
  rw [flag, prevUsed]
  rfl

/-- The stretch after the run behind it was absorbed, if that is free. -/
theorem coalesceNext {block : Block}
    (stretch : Stretch cfg s u front [block] next back block.addr block.size) :
    ∃ old' next' back' size',
      (u.coalesceNext cfg block.addr block.size).2 = size' ∧
      Stretch cfg s (u.coalesceNext cfg block.addr block.size).1 front old'
        next' back' block.addr size' ∧
      old' ≠ [] ∧ next'.kind ≠ .free ∧
      (∀ run ∈ old', run.kind = .used → run = block) ∧
      front ++ old' ++ next' :: back' = front ++ [block] ++ next :: back ∧
      usedRuns (front ++ next' :: back') =
        usedRuns (front ++ next :: back) := by
  by_cases free : next.kind = .free
  · rw [stretch.coalesceNext_absorbs free]
    obtain ⟨later, rest, rfl, separated, absorbed⟩ := stretch.absorbNext free
    refine ⟨[block] ++ [next], later, rest, block.size + next.size, rfl,
      absorbed.congr (by simp) (by simp) (by simp) (by simp), by simp,
      separated, by simp [free], by simp, ?_⟩
    rw [usedRuns_skip (show next.kind ≠ .used by rw [free]; decide)]
  · rw [stretch.coalesceNext_stays free]
    exact ⟨[block], next, back, block.size, rfl, stretch, by simp, free,
      by simp, rfl, rfl⟩

/-- The stretch after the run before it was absorbed, if that is free. -/
theorem coalescePrev
    (stretch : Stretch cfg s u front old next back first size)
    (nonempty : old ≠ []) :
    ∃ front' old' first' size',
      (u.coalescePrev cfg first size).2 = (first', size') ∧
      Stretch cfg s (u.coalescePrev cfg first size).1 front' old' next back
        first' size' ∧
      old' ≠ [] ∧ carryFree false front' = false ∧
      (∀ run ∈ old', run.kind = .used → run ∈ old) ∧
      front' ++ old' ++ next :: back = front ++ old ++ next :: back ∧
      usedRuns (front' ++ next :: back) =
        usedRuns (front ++ next :: back) := by
  cases flagged : carryFree false front with
  | true =>
      obtain ⟨earlier, prev, rfl, free⟩ := exists_last_of_carryFree flagged
      rw [stretch.coalescePrev_absorbs nonempty free]
      obtain ⟨_, separated, absorbed⟩ := stretch.absorbPrev rfl free nonempty
      refine ⟨earlier, prev :: old, prev.addr, prev.size + size, rfl,
        absorbed.congr (by simp) (by simp) (by simp) (by simp), by simp,
        separated, ?_, by simp, ?_⟩
      · rintro run member used
        rcases List.mem_cons.mp member with rfl | inOld
        · exact absurd (used.symm.trans free) (by decide)
        · exact inOld
      · have shape : earlier ++ [prev] ++ next :: back =
            earlier ++ prev :: next :: back := by simp
        rw [shape, usedRuns_skip (show prev.kind ≠ .used by rw [free]; decide)]
  | false =>
      rw [stretch.coalescePrev_stays nonempty flagged]
      exact ⟨front, old, first, size, rfl, stretch, nonempty, flagged,
        fun run member _ => member, rfl, rfl⟩

end Stretch

section Deallocate

variable {block : Block} (heap : HeapOk cfg s blocks)
  (member : block ∈ usedRuns blocks)

include heap member

/-- Gathering the free neighbours of an allocated run and freeing them as
one. -/
theorem coalesce_spec :
    let merged := s.coalesceNext cfg block.addr block.size
    let joined := merged.1.coalescePrev cfg block.addr merged.2
    HeapStep cfg s (joined.1.makeFree joined.2.1 joined.2.2)
        (usedRuns blocks \ {block}) (usedRuns blocks \ {block}) ∧
      (joined.1.makeFree joined.2.1 joined.2.2).outer = s.outer := by
  obtain ⟨inBlocks, used⟩ := member
  obtain ⟨front, back, rfl⟩ := List.append_of_mem inBlocks
  have nodup := heap.layout.nodup
  obtain ⟨next, rest, rfl, stretch⟩ := Stretch.startUsed heap used
  dsimp only
  obtain ⟨old₁, next₁, back₁, size₁, sizeEq₁, stretch₁, nonempty₁, nextUsed,
    onlyBlock, listed₁, used₁⟩ := stretch.coalesceNext
  rw [sizeEq₁]
  obtain ⟨front₂, old₂, first₂, size₂, pairEq, stretch₂, nonempty₂, prevUsed,
    fromOld, listed₂, used₂⟩ := stretch₁.coalescePrev nonempty₁
  rw [pairEq]
  obtain ⟨madeHeap, frame, outer⟩ :=
    stretch₂.makeFree nonempty₂ nextUsed prevUsed
  have listed : front₂ ++ old₂ ++ next₁ :: back₁ =
      front ++ block :: next :: rest := by
    rw [listed₂, listed₁]
    simp
  rw [listed] at frame
  have chunks := State.chunks_of_outer outer
  have inside : ∀ run ∈ usedRuns (front ++ block :: next :: rest) \ {block},
      ∀ word, run.Holds word → ¬ (first₂ ≤ word ∧ word < first₂ + size₂) := by
    rintro run ⟨⟨runMember, runUsed⟩, different⟩ word holds ⟨lower, upper⟩
    have inOld := stretch₂.mem_old nonempty₂ (by rw [listed]; exact runMember)
      holds lower upper
    exact different (onlyBlock run (fromOld run inOld runUsed) runUsed)
  refine ⟨⟨⟨?_, fun word notIn => ?_, fun word behind => ?_,
    fun chunk chunkMember => by rwa [chunks]⟩, _, madeHeap, ?_⟩, outer⟩
  · intro run member word lower upper
    exact frame word (inside run member word ⟨lower.le, upper⟩)
      (heap.not_privateWord member.1 lower upper)
  · have notIn' : ¬ InChunks s word := by
      rintro ⟨chunk, chunkMember, place⟩
      exact notIn ⟨chunk, by rwa [chunks], place⟩
    refine frame word (fun place => ?_) fun isPrivate =>
      notIn' (heap.inChunks_of_privateWord isPrivate)
    exact notIn' (stretch₂.inChunks place.1 place.2)
  · exact frame word (stretch₂.not_behind behind)
      (heap.not_privateWord_of_behind behind)
  · rw [usedRuns_diff nodup, ← used₁, ← used₂, List.append_assoc,
      List.singleton_append, usedRuns_skip (by simp)]

theorem deallocateBytes_spec :
    HeapStep cfg s (s.deallocateBytes cfg (block.addr + 16))
        (usedRuns blocks \ {block}) (usedRuns blocks \ {block}) ∧
      (s.deallocateBytes cfg (block.addr + 16)).outer = s.outer := by
  have sizeEq : (s.record cfg fun stats => { stats with
      deallocateCalls := wrapAdd stats.deallocateCalls 1 }).runSize block.addr =
      block.size := by
    unfold State.runSize
    rw [record_mem]
    exact heap.runSize member.1 (by rw [member.2]; decide)
  have recordedHeap : HeapOk cfg ((s.record cfg fun stats => { stats with
      deallocateCalls := wrapAdd stats.deallocateCalls 1 }).record cfg
        fun stats => { stats with
          liveBytes := wrapSub stats.liveBytes (wrapSub block.size 16) })
      blocks :=
    heap.congr (by simp) (by simp) (by simp) (by simp)
  obtain ⟨step, outer⟩ := coalesce_spec recordedHeap member
  unfold State.deallocateBytes
  rw [if_neg (by omega)]
  dsimp only
  rw [headerFromPayload_eq, Nat.add_sub_cancel, headerBytes_eq, sizeEq]
  exact ⟨step.congr (by simp) (by simp) rfl rfl rfl rfl,
    outer.trans (by simp)⟩

end Deallocate

section Expand

variable {front back : List Block} {block next : Block} {needed : Nat}
  (heap : HeapOk cfg s (front ++ block :: next :: back))
  (used : block.kind = .used) (free : next.kind = .free)

include heap used free

/-- The stretch of an allocated run and the free run behind it, which has left the
index. -/
theorem absorb_free : ∃ later rest, back = later :: rest ∧ later.kind ≠ .free ∧
    Stretch cfg s (s.unlinkFree next.addr) front ([block] ++ [next]) later rest
      block.addr (block.size + next.size) := by
  obtain ⟨_, _, sameBack, stretch⟩ := Stretch.startUsed heap used
  obtain ⟨rfl, rfl⟩ := List.cons.inj sameBack
  exact stretch.absorbNext free

/-- An allocated run grown into the free run behind it: either that run is absorbed
whole, or what is left of it has 112 bytes or more and is linked. -/
theorem expandInto_retiled {binned : Nat → List Nat}
    (index : FreeIndex s binned (freeRuns (front ++ block :: next :: back)))
    (aligned : 16 ∣ needed) (large : block.size ≤ needed)
    (fits : needed ≤ block.size + next.size) :
    let expanded := s.expandInto cfg block.addr next.addr block.size
      (block.size + next.size) needed
    let total := block.size + next.size
    let erased := Function.update binned (binIndexFor next.size)
      ((binned (binIndexFor next.size)).erase next.addr)
    needed + 112 ≤ total ∧ expanded.2 = needed - 16 ∧
      Retiled cfg s expanded.1 (front ++ block :: next :: back)
        (front ++ [⟨block.addr, needed, .used⟩,
          ⟨block.addr + needed, total - needed, .free⟩] ++ back)
        (Function.update erased (binIndexFor (total - needed))
          ((block.addr + needed) :: erased (binIndexFor (total - needed))))
        block.addr needed total ∨
    total < needed + 112 ∧ expanded.2 = total - 16 ∧
      Retiled cfg s expanded.1 (front ++ block :: next :: back)
        (front ++ [⟨block.addr, total, .used⟩] ++ back) erased block.addr total
        total := by
  have nextMember : next ∈ freeRuns (front ++ block :: next :: back) :=
    ⟨by simp, free⟩
  have nextSize := heap.runSize nextMember.1 (by rw [free]; decide)
  have nodup := heap.layout.nodup
  obtain ⟨later, rest, rfl, separated, absorbed⟩ := absorb_free heap used free
  have flagEq : s.prevIsFree block.addr = carryFree false front := by
    have tagged := heap.tagged
    rw [tagged_append] at tagged
    exact tagged.2.1.prevIsFree (heap.layout.packable (by simp)) (by rw [used]; decide)
  have minimal := (heap.layout.sizes block (by simp) (by rw [used]; decide)).1
  have bounds := absorbed.bounds
  have remEq : wrapSub (block.size + next.size) needed =
      block.size + next.size - needed := wrapSub_eq fits (by omega)
  have listed : front ++ ([block] ++ [next]) ++ later :: rest =
      front ++ block :: next :: later :: rest := by simp
  have unlinked := index.unlinkFree heap.layout.linkable nextMember nextSize
  have remaining : freeRuns (front ++ block :: next :: later :: rest) \ {next} =
      freeRuns (front ++ later :: rest) := by
    have skipped : freeRuns (front ++ block :: later :: rest) =
        freeRuns (front ++ later :: rest) := freeRuns_skip (by rw [used]; decide)
    rw [← skipped]
    simpa using @freeRuns_diff (front ++ [block]) (later :: rest) next
      (by simpa using nodup)
  rw [remaining] at unlinked
  have reported : ∀ {t : State} {new : List Block} {binned' : Nat → List Nat}
      {granted : Nat}, Retiled cfg s t (front ++ block :: next :: later :: rest) new
        binned' block.addr granted (block.size + next.size) →
      (⟨block.addr, granted, .used⟩ : Block) ∈ new → needed ≤ granted →
      wrapSub (t.runSize block.addr) headerBytes = granted - 16 := by
    intro t new binned' granted retiled member enough
    have size := retiled.heap.runSize member (by simp)
    have bounded := retiled.heap.layout.size_lt member
    dsimp only at size bounded
    rw [size, headerBytes_eq, wrapSub_eq (by omega) bounded]
  dsimp only
  unfold State.expandInto
  simp only [flagEq, remEq, minFreeRunSize_eq, splitRemainderThreshold_eq]
  by_cases split : block.size + next.size - needed ≥ 48 + 64
  · rw [if_pos split]
    have retiled := absorbed.makeRemainder_retiled (by simp) separated unlinked
      (by omega) aligned (by omega)
      (v := (s.unlinkFree next.addr).setHeader block.addr needed false
        (carryFree false front)) rfl rfl rfl rfl
    rw [listed] at retiled
    refine Or.inl ⟨by omega, reported retiled (by simp) le_rfl, ?_⟩
    split
    · exact retiled.congr (by simp [State.addLiveBytes]) (by simp [State.addLiveBytes])
        (by simp [State.addLiveBytes]) (by simp [State.addLiveBytes])
    · exact retiled
  · rw [if_neg split]
    have retiled := absorbed.takeWhole_retiled (by simp) unlinked _ rfl
    rw [listed] at retiled
    refine Or.inr ⟨by omega, reported retiled (by simp) fits, ?_⟩
    split
    · exact retiled.congr (by simp [State.addLiveBytes]) (by simp [State.addLiveBytes])
        (by simp [State.addLiveBytes]) (by simp [State.addLiveBytes])
    · exact retiled

/-- Growing an allocated run into the free run behind it. -/
theorem expandInto_spec (aligned : 16 ∣ needed) (large : block.size ≤ needed)
    (fits : needed ≤ block.size + next.size) :
    let expanded := s.expandInto cfg block.addr next.addr block.size
      (block.size + next.size) needed
    ∃ granted, needed ≤ granted ∧ expanded.2 = granted - 16 ∧
      HeapStep cfg s expanded.1 (usedRuns (front ++ block :: next :: back))
        (insert ⟨block.addr, granted, .used⟩
          (usedRuns (front ++ block :: next :: back) \ {block})) ∧
      expanded.1.outer = s.outer := by
  have nodup := heap.layout.nodup
  obtain ⟨binned, index⟩ := heap.indexed
  have exact := expandInto_retiled heap used free index aligned large fits
  obtain ⟨later, rest, rfl, separated, absorbed⟩ := absorb_free heap used free
  have listed : front ++ ([block] ++ [next]) ++ later :: rest =
      front ++ block :: next :: later :: rest := by simp
  have usedSame : usedRuns (front ++ later :: rest) =
      usedRuns (front ++ block :: next :: later :: rest) \ {block} := by
    rw [usedRuns_diff nodup,
      usedRuns_skip (show next.kind ≠ .used by rw [free]; decide)]
  have covers : ∀ granted, needed ≤ granted → ∀ run ∈ [block] ++ [next],
      run.kind = .used → run.stop ≤ block.addr + granted := by
    intro granted enough run member runUsed
    simp only [List.cons_append, List.nil_append, List.mem_cons,
      List.not_mem_nil, or_false] at member
    rcases member with rfl | rfl
    · unfold Block.stop
      omega
    · exact absurd (runUsed.symm.trans free) (by decide)
  rw [← usedSame, ← listed]
  rw [← listed] at exact
  rcases exact with ⟨_, reported, retiled⟩ | ⟨_, reported, retiled⟩
  · have inserted : usedRuns (front ++ [⟨block.addr, needed, .used⟩,
        ⟨block.addr + needed, block.size + next.size - needed, .free⟩] ++
          later :: rest) =
        insert ⟨block.addr, needed, .used⟩ (usedRuns (front ++ later :: rest)) := by
      rw [List.append_assoc, List.cons_append, List.singleton_append,
        usedRuns_insert rfl, usedRuns_skip (by simp)]
    have grant := retiled.granted inserted
    exact ⟨needed, le_rfl, reported, absorbed.heapStep_of_granted (by simp) grant
      (covers needed le_rfl) rfl, retiled.outer⟩
  · have inserted : usedRuns (front ++ [⟨block.addr, block.size + next.size, .used⟩] ++
          later :: rest) = insert ⟨block.addr, block.size + next.size, .used⟩
            (usedRuns (front ++ later :: rest)) := by
      rw [List.append_assoc, List.singleton_append]
      exact usedRuns_insert rfl
    have grant := retiled.granted inserted
    exact ⟨_, fits, reported, absorbed.heapStep_of_granted (by simp) grant
      (covers _ fits) rfl, retiled.outer⟩

end Expand

/-- What `expand` does to an allocated run: nothing, when the run is large enough or
cannot become so, or a growth into the free run behind it. -/
inductive Expands (cfg : Config) (s : State) (blocks : List Block) (block : Block)
    (minNewBytes : Nat) : State × Nat → Prop
  | stays (refused : block.size - 16 < minNewBytes → ∀ front next back,
      blocks = front ++ block :: next :: back → next.kind = .free →
        block.size + next.size - 16 < minNewBytes) :
      Expands cfg s blocks block minNewBytes (s, block.size - 16)
  | grows {front back : List Block} {next : Block} {needed : Nat}
      (listed : blocks = front ++ block :: next :: back) (free : next.kind = .free)
      (short : block.size - 16 < minNewBytes) (room : minNewBytes + 16 ≤ needed)
      (aligned : 16 ∣ needed) (fits : needed ≤ block.size + next.size) :
      Expands cfg s blocks block minNewBytes
        (s.expandInto cfg block.addr next.addr block.size (block.size + next.size)
          needed)

/-- What `expand` computes for an allocated run in front of `next`. -/
theorem expand_eq {front back : List Block} {block next : Block} {minNewBytes : Nat}
    (heap : HeapOk cfg s (front ++ block :: next :: back)) (used : block.kind = .used) :
    s.expand cfg (block.addr + 16) minNewBytes =
      if minNewBytes ≤ block.size - 16 then (s, block.size - 16)
      else
        match normalizedRunBytesForPayload minNewBytes with
        | none => (s, block.size - 16)
        | some needed =>
            if next.kind = .free ∧ needed ≤ block.size + next.size then
              s.expandInto cfg block.addr next.addr block.size
                (block.size + next.size) needed
            else (s, block.size - 16) := by
  have notFence : block.kind ≠ .fence := by rw [used]; decide
  have inBlocks : block ∈ front ++ block :: next :: back := by simp
  have nextMember : next ∈ front ++ block :: next :: back := by simp
  have sizeEq := heap.runSize inBlocks notFence
  have bounded := heap.layout.size_lt inBlocks
  have large := (heap.layout.sizes block inBlocks notFence).1
  have payloadEq : wrapSub block.size 16 = block.size - 16 :=
    wrapSub_eq (by omega) bounded
  obtain ⟨_, _, sameBack, stretch⟩ := Stretch.startUsed heap used
  obtain ⟨rfl, rfl⟩ := List.cons.inj sameBack
  have nextEq : s.nextRun block.addr = if next.kind = .fence then 0
      else next.addr :=
    stretch.next_tagged.nextRun stretch.next_packable
      (by rw [sizeEq]; exact stretch.adjacent)
  have nextPositive := heap.layout.addr_pos nextMember
  have nextBounds := heap.layout.stop_le nextMember
  have stopEq : next.stop = next.addr + next.size := rfl
  have adjacent := stretch.adjacent
  have positive := heap.layout.addr_pos inBlocks
  unfold State.expand
  rw [if_neg (by omega)]
  simp only [headerFromPayload_eq, Nat.add_sub_cancel, sizeEq, headerBytes_eq,
    payloadEq, ge_iff_le]
  by_cases enough : minNewBytes ≤ block.size - 16
  · rw [if_pos enough, if_pos enough]
  rw [if_neg enough, if_neg enough]
  cases normalizedRunBytesForPayload minNewBytes with
  | none => rfl
  | some needed =>
      dsimp only
      rw [nextEq]
      by_cases free : next.kind = .free
      · have nextNotFence : next.kind ≠ .fence := by rw [free]; decide
        have isFree : s.isFree next.addr = true := by
          rw [heap.isFree nextMember nextNotFence]
          simp [Block.isFree, free]
        have combined : checkedAdd block.size next.size =
            some (block.size + next.size) :=
          (checkedAdd_eq_some (heap.layout.size_lt nextMember)).mpr
            ⟨by omega, rfl⟩
        rw [if_neg nextNotFence, if_neg (by simp [isFree]; omega),
          heap.runSize nextMember nextNotFence, combined]
        dsimp only
        by_cases fits : block.size + next.size < needed
        · rw [if_pos fits, if_neg (by omega)]
        · rw [if_neg fits, if_pos ⟨free, by omega⟩]
      · have stuck : (if next.kind = .fence then 0 else next.addr) = 0 ∨
            ¬ s.isFree (if next.kind = .fence then 0 else next.addr) := by
          by_cases isFence : next.kind = .fence
          · simp [isFence]
          · rw [if_neg isFence, heap.isFree nextMember isFence]
            simp [Block.isFree, free]
        rw [if_pos stuck, if_neg fun both => free both.1]

theorem expand_expands {block : Block} {minNewBytes : Nat}
    (heap : HeapOk cfg s blocks) (member : block ∈ usedRuns blocks)
    (word : minNewBytes < 2 ^ 64) :
    Expands cfg s blocks block minNewBytes
      (s.expand cfg (block.addr + 16) minNewBytes) := by
  obtain ⟨inBlocks, used⟩ := member
  obtain ⟨front, back, rfl⟩ := List.append_of_mem inBlocks
  obtain ⟨next, rest, rfl, stretch⟩ := Stretch.startUsed heap used
  have nextMember : next ∈ front ++ block :: next :: rest := by simp
  have nextBounds := heap.layout.stop_le nextMember
  have stopEq : next.stop = next.addr + next.size := rfl
  have adjacent := stretch.adjacent
  have positive := heap.layout.addr_pos inBlocks
  have nextSize := heap.layout.sizes next nextMember
  have blockSize := heap.layout.sizes block inBlocks (by rw [used]; decide)
  have behind : ∀ front' next' back',
      front ++ block :: next :: rest = front' ++ block :: next' :: back' →
        next' = next := by
    intro front' next' back' listed
    have fresh := (List.nodup_cons.mp (List.nodup_middle.mp heap.layout.nodup)).1
    rw [List.mem_append, not_or] at fresh
    obtain ⟨_, _, same⟩ :=
      (List.append_cons_inj_of_notMem fresh.1 fresh.2).mp listed
    exact (List.cons.inj same).1.symm
  have refused : (next.kind = .free → block.size + next.size - 16 < minNewBytes) →
      Expands cfg s (front ++ block :: next :: rest) block minNewBytes
        (s, block.size - 16) := by
    intro small
    refine .stays fun _ front' next' back' listed free => ?_
    obtain rfl := behind front' next' back' listed
    exact small free
  rw [expand_eq heap used]
  by_cases enough : minNewBytes ≤ block.size - 16
  · rw [if_pos enough]
    exact .stays fun short => absurd short (by omega)
  rw [if_neg enough]
  have sized := normalizedRunBytesForPayload_eq word
  cases normalized : normalizedRunBytesForPayload minNewBytes with
  | none =>
      rw [normalized] at sized
      apply refused
      intro free
      have nextLarge := nextSize (by rw [free]; decide)
      split at sized
      · cases sized
      · omega
  | some needed =>
      rw [normalized] at sized
      obtain ⟨aligned, _, room, _⟩ :=
        normalizedRunBytesForPayload_spec word normalized
      dsimp only
      by_cases grows : next.kind = .free ∧ needed ≤ block.size + next.size
      · rw [if_pos grows]
        exact .grows rfl grows.1 (by omega) room aligned grows.2
      · rw [if_neg grows]
        apply refused
        intro free
        have nextLarge := nextSize (by rw [free]; decide)
        have short : ¬ needed ≤ block.size + next.size := fun fits =>
          grows ⟨free, fits⟩
        split at sized
        · obtain rfl := Option.some.inj sized
          omega
        · cases sized

/-- `expand` leaves the payload where it is, possibly with more bytes behind
it. -/
theorem expand_spec {block : Block} {minNewBytes : Nat}
    (heap : HeapOk cfg s blocks) (member : block ∈ usedRuns blocks)
    (word : minNewBytes < 2 ^ 64) :
    ∃ granted, block.size ≤ granted ∧
      (s.expand cfg (block.addr + 16) minNewBytes).2 = granted - 16 ∧
      HeapStep cfg s (s.expand cfg (block.addr + 16) minNewBytes).1
        (usedRuns blocks)
        (insert ⟨block.addr, granted, .used⟩ (usedRuns blocks \ {block})) ∧
      (s.expand cfg (block.addr + 16) minNewBytes).1.outer = s.outer := by
  have expands := expand_expands heap member word
  generalize s.expand cfg (block.addr + 16) minNewBytes = result at expands ⊢
  cases expands with
  | stays refused =>
      refine ⟨block.size, le_rfl, rfl, ?_, rfl⟩
      have same : (⟨block.addr, block.size, .used⟩ : Block) = block := by
        rw [← member.2]
      rw [same, Set.insert_sdiff_singleton, Set.insert_eq_of_mem member]
      exact HeapStep.refl heap
  | @grows front back next needed listed free short room aligned fits =>
      subst listed
      obtain ⟨granted, enough, result⟩ := expandInto_spec heap member.2 free aligned
        (by omega) fits
      exact ⟨granted, by omega, result⟩

end Runner

end Allocazam
