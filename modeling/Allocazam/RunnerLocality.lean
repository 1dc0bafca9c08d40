import Allocazam.RunnerObservation

/-!
# Locality of deallocation

What the holders of other allocations write to their payloads, and what is
pushed to the remote stack, has no influence on a deallocation: started in two
states that differ in such words only, it ends in two states that differ in
such words only.
-/

namespace Allocazam

namespace Runner

variable {cfg : Config} {s t u : State} {words : Set Nat}

/-- The states differ at most in the given words of the memory and in the head
of the remote stack. -/
structure Agree (words : Set Nat) (s t : State) : Prop where
  bins : t.bins = s.bins
  mask : t.binNonemptyMask = s.binNonemptyMask
  chunks : t.chunks = s.chunks
  nextGrowth : t.nextGrowth = s.nextGrowth
  deferred : t.deferredBytes = s.deferredBytes
  stats : t.stats = s.stats
  mem : ∀ word, word ∉ words → t.mem word = s.mem word

namespace Agree

theorem refl : Agree words s s where
  bins := rfl
  mask := rfl
  chunks := rfl
  nextGrowth := rfl
  deferred := rfl
  stats := rfl
  mem _ _ := rfl

theorem mono {words' : Set Nat} (agree : Agree words s t)
    (subset : words ⊆ words') : Agree words' s t :=
  { agree with
    mem := fun word notIn =>
      agree.mem word fun inside => notIn (subset inside) }

theorem symm (agree : Agree words s t) : Agree words t s where
  bins := agree.bins.symm
  mask := agree.mask.symm
  chunks := agree.chunks.symm
  nextGrowth := agree.nextGrowth.symm
  deferred := agree.deferred.symm
  stats := agree.stats.symm
  mem word notIn := (agree.mem word notIn).symm

/-- A write to one of the excluded words goes unnoticed. -/
theorem write_right (agree : Agree words s t) {addr value : Nat}
    (inside : addr ∈ words) : Agree words s (t.write addr value) :=
  { agree with
    mem := fun word notIn => by
      refine (Function.update_of_ne ?_ _ _).trans (agree.mem word notIn)
      rintro rfl
      exact notIn inside }

theorem remoteHead_right (agree : Agree words s t) (head : Nat) :
    Agree words s { t with remoteHead := head } :=
  { agree with }

variable (agree : Agree words s t)

include agree

theorem write (addr value : Nat) :
    Agree words (s.write addr value) (t.write addr value) :=
  { agree with
    mem := fun word notIn => by
      show Function.update t.mem addr value word =
        Function.update s.mem addr value word
      by_cases here : word = addr
      · rw [here, Function.update_self, Function.update_self]
      · rw [Function.update_of_ne here, Function.update_of_ne here]
        exact agree.mem word notIn }

theorem record (update : Stats → Stats) :
    Agree words (s.record cfg update) (t.record cfg update) := by
  unfold State.record
  split
  · exact { agree with stats := congrArg update agree.stats }
  · exact agree

theorem setBin (idx head : Nat) :
    Agree words (s.setBin idx head) (t.setBin idx head) :=
  { agree with
    bins := by
      unfold State.setBin
      rw [agree.bins] }

theorem setBinNonempty (idx : Nat) :
    Agree words (s.setBinNonempty idx) (t.setBinNonempty idx) :=
  { agree with
    mask := by
      unfold State.setBinNonempty
      rw [agree.mask] }

theorem setBinEmpty (idx : Nat) :
    Agree words (s.setBinEmpty idx) (t.setBinEmpty idx) :=
  { agree with
    mask := by
      unfold State.setBinEmpty
      rw [agree.mask] }

section Header

variable {h : Nat} (header : h ∉ words)

include header

theorem runSize : t.runSize h = s.runSize h := by
  unfold State.runSize
  rw [agree.mem h header]

theorem isFree : t.isFree h = s.isFree h := by
  unfold State.isFree
  rw [agree.mem h header]

theorem prevIsFree : t.prevIsFree h = s.prevIsFree h := by
  unfold State.prevIsFree
  rw [agree.mem h header]

theorem setPrevFree (prevFree : Bool) :
    Agree words (s.setPrevFree h prevFree) (t.setPrevFree h prevFree) := by
  unfold State.setPrevFree
  rw [agree.prevIsFree header, agree.mem h header]
  split
  · exact agree
  · split
    · exact agree.write _ _
    · exact agree.write _ _

theorem writeFooter : Agree words (s.writeFooter h) (t.writeFooter h) := by
  unfold State.writeFooter State.footerPtr
  rw [agree.runSize header, agree.mem h header]
  exact agree.write _ _

theorem nextRun (next : h + s.runSize h ∉ words) :
    t.nextRun h = s.nextRun h := by
  unfold State.nextRun
  dsimp only
  rw [agree.runSize header, agree.runSize next]

theorem flagNextRun (next : h + s.runSize h ∉ words) (free : Bool) :
    Agree words (s.flagNextRun h free) (t.flagNextRun h free) := by
  unfold State.flagNextRun
  dsimp only
  rw [agree.nextRun header next]
  by_cases isNull : s.nextRun h = 0
  · rw [if_neg (by simpa using isNull), if_neg (by simpa using isNull)]
    exact agree
  · rw [if_pos isNull, if_pos isNull]
    apply agree.setPrevFree
    unfold State.nextRun at isNull ⊢
    dsimp only at isNull ⊢
    split at isNull
    · exact absurd rfl isNull
    · rename_i nonempty
      rw [if_neg nonempty]
      exact next

theorem linkFree : Agree words (s.linkFree h) (t.linkFree h) := by
  unfold State.linkFree
  dsimp only
  rw [agree.runSize header]
  generalize binIndexFor (s.runSize h) = idx
  have cleared := agree.write (prevLink h) 0
  have linked := cleared.write (nextLink h) ((s.write (prevLink h) 0).bins idx)
  rw [cleared.bins, linked.bins]
  apply setBinNonempty
  apply setBin
  split
  · exact linked.write _ _
  · exact linked

theorem unlinkFree (next : nextLink h ∉ words) (prev : prevLink h ∉ words) :
    Agree words (s.unlinkFree h) (t.unlinkFree h) := by
  unfold State.unlinkFree
  dsimp only
  rw [agree.runSize header]
  generalize binIndexFor (s.runSize h) = idx
  have forward : Agree words (s.skipForward h idx) (t.skipForward h idx) := by
    unfold State.skipForward
    rw [agree.mem _ prev, agree.mem _ next]
    split
    · exact agree.write _ _
    · exact agree.setBin _ _
  have backward : Agree words ((s.skipForward h idx).skipBackward h)
      ((t.skipForward h idx).skipBackward h) := by
    unfold State.skipBackward
    rw [forward.mem _ prev, forward.mem _ next]
    split
    · exact forward.write _ _
    · exact forward
  unfold State.clearIfEmpty
  rw [backward.bins]
  split
  · exact backward.setBinEmpty _
  · exact backward

end Header

theorem coalesceNext {current size : Nat} (header : current ∉ words)
    (next : current + s.runSize current ∉ words)
    (links : s.runSize (current + s.runSize current) ≠ 0 →
      s.isFree (current + s.runSize current) = true →
      nextLink (current + s.runSize current) ∉ words ∧
        prevLink (current + s.runSize current) ∉ words) :
    (t.coalesceNext cfg current size).2 = (s.coalesceNext cfg current size).2 ∧
      Agree words (s.coalesceNext cfg current size).1
        (t.coalesceNext cfg current size).1 := by
  have place : s.nextRun current ≠ 0 →
      s.nextRun current = current + s.runSize current ∧
        s.runSize (current + s.runSize current) ≠ 0 := by
    unfold State.nextRun
    dsimp only
    split
    · simp
    · rename_i nonempty
      exact fun _ => ⟨rfl, nonempty⟩
  unfold State.coalesceNext
  dsimp only
  rw [agree.nextRun header next]
  by_cases isNull : s.nextRun current = 0
  · rw [if_neg fun both => both.1 isNull, if_neg fun both => both.1 isNull]
    exact ⟨rfl, agree⟩
  obtain ⟨placeEq, nonempty⟩ := place isNull
  rw [placeEq, agree.isFree next]
  rw [placeEq] at isNull
  by_cases free : s.isFree (current + s.runSize current) = true
  · rw [if_pos ⟨isNull, free⟩, if_pos ⟨isNull, free⟩]
    have unlinked := agree.unlinkFree next (links nonempty free).1
      (links nonempty free).2
    refine ⟨congrArg (wrapAdd size) (unlinked.runSize next), ?_⟩
    dsimp only
    apply unlinked.record
  · rw [if_neg fun both => free both.2, if_neg fun both => free both.2]
    exact ⟨rfl, agree⟩

theorem coalescePrev {current size : Nat} (header : current ∉ words)
    (before : s.prevIsFree current = true →
      current - 8 ∉ words ∧ s.prevRun current ∉ words ∧
        nextLink (s.prevRun current) ∉ words ∧
          prevLink (s.prevRun current) ∉ words) :
    (t.coalescePrev cfg current size).2 = (s.coalescePrev cfg current size).2 ∧
      Agree words (s.coalescePrev cfg current size).1
        (t.coalescePrev cfg current size).1 := by
  unfold State.coalescePrev
  rw [agree.prevIsFree header]
  by_cases flagged : s.prevIsFree current = true
  swap
  · rw [if_neg flagged, if_neg flagged]
    exact ⟨rfl, agree⟩
  obtain ⟨footer, prev, next, link⟩ := before flagged
  have samePrev : t.prevRun current = s.prevRun current := by
    unfold State.prevRun
    rw [agree.mem _ footer]
  rw [if_pos flagged, if_pos flagged, samePrev]
  dsimp only
  rw [agree.isFree prev]
  by_cases free : s.prevRun current ≠ 0 ∧ s.isFree (s.prevRun current) = true
  · rw [if_pos free, if_pos free]
    have unlinked := agree.unlinkFree prev next link
    constructor
    · rw [unlinked.runSize prev]
    · dsimp only
      apply unlinked.record
  · rw [if_neg free, if_neg free]
    exact ⟨rfl, agree⟩

theorem makeFree {current size : Nat} (header : current ∉ words)
    (next : current + size ∉ words) (aligned : 16 ∣ size) (large : 48 ≤ size)
    (bounded : size < 2 ^ 64) :
    Agree words (s.makeFree current size) (t.makeFree current size) := by
  unfold State.makeFree
  dsimp only
  rw [agree.prevIsFree header]
  have written : Agree words (s.setHeader current size true (s.prevIsFree current))
      (t.setHeader current size true (s.prevIsFree current)) := agree.write _ _
  have footed := written.writeFooter header
  have sizeEq : ((s.setHeader current size true (s.prevIsFree current)).writeFooter
      current).runSize current = size := by
    have here : (s.setHeader current size true (s.prevIsFree current)).mem current =
        pack size true (s.prevIsFree current) := Function.update_self _ _ _
    have field := sizeField_pack (show 4 ∣ size by omega) bounded true
      (s.prevIsFree current)
    unfold State.runSize State.writeFooter State.footerPtr
    rw [State.write_mem, here, field, Function.update_of_ne (by omega), here,
      field]
  apply linkFree _ header
  apply footed.flagNextRun header
  rw [sizeEq]
  exact next

end Agree

theorem Stretch.exists_prev {front old back : List Block} {next : Block}
    {first size : Nat} (stretch : Stretch cfg s u front old next back first size)
    (nonempty : old ≠ []) (flagged : u.prevIsFree first = true) :
    ∃ prev ∈ front, prev.kind = .free ∧ prev.stop = first ∧
      u.prevRun first = prev.addr := by
  rw [stretch.prevIsFree_first nonempty] at flagged
  obtain ⟨earlier, prev, rfl, free⟩ := exists_last_of_carryFree flagged
  obtain ⟨adjacent, _⟩ := stretch.absorbPrev rfl free nonempty
  have inBlocks : prev ∈ earlier ++ [prev] ++ old ++ next :: back := by simp
  obtain ⟨flag, tagged⟩ := stretch.tagged.exists_flag inBlocks
  have large := (stretch.heap.layout.size_spec inBlocks).2
  refine ⟨prev, by simp, free, adjacent, ?_⟩
  have footer : u.mem (first - 8) = prev.size := by
    unfold BlockTagged at tagged
    rw [free] at tagged
    rw [← adjacent]
    exact tagged.2
  have stopEq : prev.stop = prev.addr + prev.size := rfl
  unfold State.prevRun
  simp only [footer]
  rw [if_neg (by omega)]
  omega

section Deallocate

variable {blocks : List Block} {block : Block} (heap : HeapOk cfg s blocks)
  (member : block ∈ usedRuns blocks)
  (shared : ∀ word ∈ words, ¬ PrivateWord blocks word)

include heap member shared

/-- Gathering the free neighbours of an allocated run and freeing them as one,
in two states that differ in the payloads of other runs. -/
theorem coalesce_agree (agree : Agree words s t) :
    let merged := s.coalesceNext cfg block.addr block.size
    let joined := merged.1.coalescePrev cfg block.addr merged.2
    let merged' := t.coalesceNext cfg block.addr block.size
    let joined' := merged'.1.coalescePrev cfg block.addr merged'.2
    Agree words (joined.1.makeFree joined.2.1 joined.2.2)
      (joined'.1.makeFree joined'.2.1 joined'.2.2) := by
  have header : ∀ other ∈ blocks, other.addr ∉ words :=
    fun other inBlocks inWords =>
      shared _ inWords ⟨other, inBlocks, Or.inl rfl⟩
  have inside : ∀ other ∈ blocks, other.kind = .free → ∀ word,
      other.addr ≤ word → word < other.stop → word ∉ words :=
    fun other inBlocks free word lower upper inWords =>
      shared word inWords ⟨other, inBlocks, Or.inr ⟨free, lower, upper⟩⟩
  have large : ∀ other ∈ blocks, other.kind = .free →
      other.addr + 48 ≤ other.stop := by
    intro other inBlocks free
    have sizes := heap.layout.sizes other inBlocks (by rw [free]; decide)
    have stopEq : other.stop = other.addr + other.size := rfl
    omega
  obtain ⟨inBlocks, used⟩ := member
  have runSize := heap.runSize inBlocks (by rw [used]; decide)
  obtain ⟨front, back, rfl⟩ := List.append_of_mem inBlocks
  obtain ⟨next, rest, rfl, stretch⟩ := Stretch.startUsed heap used
  have nextMember : next ∈ front ++ block :: next :: rest := by simp
  dsimp only
  obtain ⟨sameSize, merged⟩ := agree.coalesceNext (header block inBlocks)
    (by rw [runSize, ← stretch.adjacent]; exact header next nextMember)
    (by
      rw [runSize, ← stretch.adjacent]
      intro nonempty isFree
      obtain ⟨flag, tagged⟩ := heap.tagged.exists_flag nextMember
      have notFence : next.kind ≠ .fence := fun isFence =>
        nonempty (tagged.runSize_fence isFence)
      rw [heap.isFree nextMember notFence, Block.isFree_iff] at isFree
      have room := large next nextMember isFree
      rw [nextLink_eq, prevLink_eq]
      exact ⟨inside next nextMember isFree _ (by omega) (by omega),
        inside next nextMember isFree _ (by omega) (by omega)⟩)
  obtain ⟨old₁, next₁, back₁, size₁, sizeEq₁, stretch₁, nonempty₁, nextUsed,
    onlyBlock, listed₁, used₁⟩ := stretch.coalesceNext
  rw [sameSize, sizeEq₁]
  generalize s.coalesceNext cfg block.addr block.size = result at *
  generalize t.coalesceNext cfg block.addr block.size = result' at *
  have sub₁ : ∀ other ∈ front, other ∈ front ++ block :: next :: rest :=
    fun other member => List.mem_append_left _ member
  obtain ⟨samePair, joined⟩ := merged.coalescePrev (header block inBlocks)
    (fun flagged => by
      obtain ⟨prev, prevMember, free, adjacent, place⟩ :=
        stretch₁.exists_prev nonempty₁ flagged
      have room := large prev (sub₁ prev prevMember) free
      rw [place, nextLink_eq, prevLink_eq]
      refine ⟨?_, header prev (sub₁ prev prevMember), ?_, ?_⟩
      · exact inside prev (sub₁ prev prevMember) free _ (by omega) (by omega)
      · exact inside prev (sub₁ prev prevMember) free _ (by omega) (by omega)
      · exact inside prev (sub₁ prev prevMember) free _ (by omega) (by omega))
  obtain ⟨front₂, old₂, first₂, size₂, pairEq, stretch₂, nonempty₂, prevUsed,
    fromOld, listed₂, used₂⟩ := stretch₁.coalescePrev nonempty₁
  rw [samePair, pairEq]
  have listed : front₂ ++ old₂ ++ next₁ :: back₁ =
      front ++ block :: next :: rest := by
    rw [listed₂, listed₁]
    simp
  obtain ⟨_, _, sizeLarge, sizeAligned⟩ := stretch₂.first_spec nonempty₂
  have bounds := stretch₂.bounds
  apply joined.makeFree _ _ sizeAligned sizeLarge (by omega)
  · obtain ⟨head, later, rfl⟩ := List.exists_cons_of_ne_nil nonempty₂
    rw [← stretch₂.tiles.1]
    exact header head (by rw [← listed]; simp)
  · rw [← stretch₂.adjacent]
    exact header next₁ (by rw [← listed]; simp)

/-- Deallocation in two states that differ in the payloads of other runs. -/
theorem deallocateBytes_agree (agree : Agree words s t) :
    Agree words (s.deallocateBytes cfg (block.addr + 16))
      (t.deallocateBytes cfg (block.addr + 16)) := by
  have header : block.addr ∉ words := fun inWords =>
    shared _ inWords ⟨block, member.1, Or.inl rfl⟩
  have recorded : Agree words (s.record cfg fun stats => { stats with
      deallocateCalls := wrapAdd stats.deallocateCalls 1 })
      (t.record cfg fun stats => { stats with
        deallocateCalls := wrapAdd stats.deallocateCalls 1 }) :=
    agree.record _
  unfold State.deallocateBytes
  rw [if_neg (by omega), if_neg (by omega)]
  dsimp only
  rw [headerFromPayload_eq, Nat.add_sub_cancel, recorded.runSize header]
  have sizeEq : (s.record cfg fun stats => { stats with
      deallocateCalls := wrapAdd stats.deallocateCalls 1 }).runSize block.addr =
      block.size := by
    unfold State.runSize
    rw [record_mem]
    exact heap.runSize member.1 (by rw [member.2]; decide)
  rw [sizeEq]
  exact coalesce_agree (heap.congr (by simp) (by simp) (by simp) (by simp))
    member shared (recorded.record _)

end Deallocate

end Runner

end Allocazam
