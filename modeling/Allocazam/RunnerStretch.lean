import Allocazam.RunnerTags

/-!
# Stretches of runs under rewriting

Splitting, absorbing and coalescing all follow one pattern: the free runs of a
stretch leave the index one by one, then the whole stretch is retagged and its
new free run linked.  A `Stretch` is the situation after some of the free runs
have left; the finishing theorems turn it back into a legal heap.
-/

namespace Allocazam

namespace Runner

variable {cfg : Config} {s t u : State}

/-- The memory, the bins and the chunk list carry the layout `blocks`. -/
structure HeapOk (cfg : Config) (s : State) (blocks : List Block) : Prop where
  layout : LayoutOk s.chunks blocks
  tagged : Tagged cfg s.mem false blocks
  indexed : ∃ binned, FreeIndex s binned (freeRuns blocks)

/-- The words the allocator may write without touching an allocation: headers
and the insides of free runs. -/
def PrivateWord (blocks : List Block) (word : Nat) : Prop :=
  ∃ block ∈ blocks, word = block.addr ∨ block.kind = .free ∧ block.Holds word

theorem HeapOk.congr {blocks : List Block} (heap : HeapOk cfg s blocks)
    (chunks : t.chunks = s.chunks) (mem : t.mem = s.mem)
    (bins : t.bins = s.bins) (mask : t.binNonemptyMask = s.binNonemptyMask) :
    HeapOk cfg t blocks where
  layout := by rw [chunks]; exact heap.layout
  tagged := by rw [mem]; exact heap.tagged
  indexed := by
    obtain ⟨binned, index⟩ := heap.indexed
    exact ⟨binned, index.congr bins mask fun word _ => by rw [mem]⟩

theorem HeapOk.privateWord_of_linkWord {blocks : List Block}
    (heap : HeapOk cfg s blocks) {word : Nat}
    (isLink : LinkWord (freeRuns blocks) word) : PrivateWord blocks word := by
  obtain ⟨block, member, lower, upper, _⟩ :=
    heap.layout.exists_holds_of_linkWord isLink
  exact ⟨block, member.1, Or.inr ⟨member.2, by omega, by omega⟩⟩

/-- Neither the payload nor the owner word of an allocated run is private to
the allocator. -/
theorem HeapOk.not_privateWord {blocks : List Block}
    (heap : HeapOk cfg s blocks) {block : Block}
    (member : block ∈ usedRuns blocks) {word : Nat}
    (lower : block.addr < word) (upper : word < block.stop) :
    ¬ PrivateWord blocks word := by
  rintro ⟨other, otherMember, rfl | ⟨free, holds⟩⟩
  · have same := heap.layout.eq_of_holds member.1 otherMember
      ⟨lower.le, upper⟩ (heap.layout.holds_addr otherMember)
    subst same
    exact lower.ne rfl
  · have same := heap.layout.eq_of_holds member.1 otherMember
      ⟨lower.le, upper⟩ holds
    subst same
    exact absurd (member.2.symm.trans free) (by decide)

/-- The runs `old` on `[first, first + size)` in front of `next`, in the layout
of `s`.  In state `u` their free runs have left the index; apart from link words
the memory is that of `s`. -/
structure Stretch (cfg : Config) (s u : State) (front old : List Block)
    (next : Block) (back : List Block) (first size : Nat) : Prop where
  heap : HeapOk cfg s (front ++ old ++ next :: back)
  tiles : Tiles first old (first + size)
  noFence : ∀ block ∈ old, block.kind ≠ .fence
  adjacent : next.addr = first + size
  indexed : ∃ binned, FreeIndex u binned (freeRuns (front ++ next :: back))
  frame : ∀ word, ¬ LinkWord (freeRuns (front ++ old ++ next :: back)) word →
    u.mem word = s.mem word
  outer : u.outer = s.outer

namespace Stretch

variable {front old back : List Block} {next : Block} {first size : Nat}

theorem congr {v : State}
    (stretch : Stretch cfg s u front old next back first size)
    (mem : v.mem = u.mem) (bins : v.bins = u.bins)
    (mask : v.binNonemptyMask = u.binNonemptyMask) (outer : v.outer = u.outer) :
    Stretch cfg s v front old next back first size :=
  { stretch with
    indexed := by
      obtain ⟨binned, index⟩ := stretch.indexed
      exact ⟨binned, index.congr bins mask fun word _ => by rw [mem]⟩
    frame := fun word notLink => by rw [mem, stretch.frame word notLink]
    outer := outer.trans stretch.outer }

theorem start (heap : HeapOk cfg s (front ++ next :: back)) :
    Stretch cfg s s front [] next back next.addr 0 where
  heap := by simpa using heap
  tiles := rfl
  noFence := by simp
  adjacent := rfl
  indexed := heap.indexed
  frame _ _ := rfl
  outer := rfl

theorem startUsed {block : Block}
    (heap : HeapOk cfg s (front ++ block :: back)) (used : block.kind = .used) :
    ∃ next rest, back = next :: rest ∧
      Stretch cfg s s front [block] next rest block.addr block.size := by
  obtain ⟨next, rest, rfl, adjacent⟩ :=
    heap.layout.fenced.exists_next (by rw [used]; decide)
  refine ⟨next, rest, rfl, by simpa using heap, ⟨rfl, rfl⟩, by simp [used],
    adjacent, ?_, fun _ _ => rfl, rfl⟩
  obtain ⟨binned, index⟩ := heap.indexed
  refine ⟨binned, ?_⟩
  rw [← freeRuns_skip (by rw [used]; decide)]
  exact index

theorem next_mem : next ∈ front ++ old ++ next :: back := by
  simp

theorem rest_mem {block : Block} (member : block ∈ front ++ next :: back) :
    block ∈ front ++ old ++ next :: back := by
  simp only [List.mem_append, List.mem_cons] at member ⊢
  tauto

theorem freeRuns_rest : freeRuns (front ++ next :: back) ⊆
    freeRuns (front ++ old ++ next :: back) := by
  rintro block ⟨member, free⟩
  exact ⟨rest_mem member, free⟩

variable (stretch : Stretch cfg s u front old next back first size)

include stretch

/-- The runs outside the stretch do not reach into it. -/
theorem rest_apart (nonempty : 0 < size) {block : Block}
    (member : block ∈ front ++ next :: back) :
    block.stop ≤ first ∨ first + size ≤ block.addr := by
  have layout := stretch.heap.layout
  have wholeMember : block ∈ front ++ old ++ next :: back := rest_mem member
  have pairwise := layout.pairwise_apart
  rw [List.append_assoc] at pairwise
  obtain ⟨_, oldNext, frontApart⟩ := List.pairwise_append.mp pairwise
  obtain ⟨_, _, oldApart⟩ := List.pairwise_append.mp oldNext
  refine stretch.tiles.apart_of_forall (by omega)
    (by have := (layout.size_spec wholeMember).2; omega) fun other inOld => ?_
  rcases List.mem_append.mp member with inFront | inBack
  · exact frontApart block inFront other (by simp [inOld])
  · exact Or.symm (oldApart other inOld block inBack)

theorem bounds : 16 ∣ first + size ∧ 0 < first + size ∧
    first + size + 16 ≤ 2 ^ 64 := by
  have layout := stretch.heap.layout
  have aligned := layout.addr_dvd next_mem
  have positive := layout.addr_pos next_mem
  have upper := layout.stop_le next_mem
  have large := (layout.size_spec next_mem).2
  have adjacent := stretch.adjacent
  have stopEq : next.stop = next.addr + next.size := rfl
  refine ⟨adjacent ▸ aligned, by omega, by omega⟩

/-- A stretch that is not empty is a legal run by its address and size. -/
theorem first_spec (nonempty : old ≠ []) :
    16 ∣ first ∧ 0 < first ∧ 48 ≤ size ∧ 16 ∣ size := by
  have layout := stretch.heap.layout
  have bounds := stretch.bounds
  obtain ⟨head, rest, rfl⟩ := List.exists_cons_of_ne_nil nonempty
  have member : head ∈ front ++ head :: rest ++ next :: back := by simp
  have headAddr : head.addr = first := stretch.tiles.1
  have aligned := layout.addr_dvd member
  have positive := layout.addr_pos member
  have large := (layout.sizes head member (stretch.noFence head (by simp))).1
  have upper := (stretch.tiles.bounds head (by simp)).2
  have stopEq : head.stop = head.addr + head.size := rfl
  rw [headAddr] at aligned positive
  refine ⟨aligned, positive, by omega, ?_⟩
  exact (Nat.dvd_add_right aligned).mp bounds.1

/-- The tags of the runs are those of `s` in `u`. -/
theorem tagged : Tagged cfg u.mem false (front ++ old ++ next :: back) :=
  stretch.heap.tagged.congr fun _ member _ isTag => stretch.frame _ fun isLink =>
    stretch.heap.layout.not_tagWord_of_linkWord member isLink isTag

theorem next_tagged :
    BlockTagged cfg u.mem (carryFree (carryFree false front) old) next := by
  have tagged := stretch.tagged
  rw [tagged_append, carryFree_append] at tagged
  exact tagged.2.1

theorem next_packable : Packable next :=
  stretch.heap.layout.packable next_mem

theorem rest_linkable : Linkable (freeRuns (front ++ next :: back)) :=
  stretch.heap.layout.linkable.mono freeRuns_rest

theorem rest_nodup : (front ++ next :: back).Nodup :=
  stretch.heap.layout.nodup.sublist
    ((List.sublist_append_left front old).append_right _)

/-- The free run behind the stretch leaves the index and joins it. -/
theorem absorbNext (free : next.kind = .free) :
    ∃ later rest, back = later :: rest ∧ later.kind ≠ .free ∧
      Stretch cfg s (u.unlinkFree next.addr) front (old ++ [next]) later rest
        first (size + next.size) := by
  have layout := stretch.heap.layout
  obtain ⟨later, rest, rfl, adjacent⟩ :=
    layout.fenced.exists_next (by rw [free]; decide)
  have member : next ∈ freeRuns (front ++ next :: later :: rest) :=
    ⟨by simp, free⟩
  have size := stretch.next_tagged.runSize stretch.next_packable
    (by rw [free]; decide)
  obtain ⟨binned, index⟩ := stretch.indexed
  have listed : front ++ (old ++ [next]) ++ later :: rest =
      front ++ old ++ next :: later :: rest := by simp
  have unlinked := index.unlinkFree stretch.rest_linkable member size
  rw [freeRuns_diff stretch.rest_nodup] at unlinked
  have adjacentStretch := stretch.adjacent
  have separated : later.kind ≠ .free := by
    have coalesced := (coalesced_append.mp layout.coalesced).2.2.1
    simpa [Block.isFree, free] using coalesced
  refine ⟨later, rest, rfl, separated, by rw [listed]; exact stretch.heap,
    tiles_append.mpr ⟨_, stretch.tiles, stretch.adjacent, ?_⟩, ?_, ?_,
    ⟨_, unlinked⟩, fun word notLink => ?_, by simp [stretch.outer]⟩
  · show next.addr + next.size = first + (_ + next.size)
    omega
  · intro block inOld
    rcases List.mem_append.mp inOld with earlier | last
    · exact stretch.noFence block earlier
    · obtain rfl := List.mem_singleton.mp last
      rw [free]
      decide
  · rw [adjacent]
    show next.addr + next.size = first + (_ + next.size)
    omega
  · rw [listed] at notLink
    rw [index.unlinkFree_frame stretch.rest_linkable member fun isLink =>
      notLink ((isLink.mono Set.sdiff_subset).mono freeRuns_rest)]
    exact stretch.frame word notLink

/-- The free run before the stretch leaves the index and joins it. -/
theorem absorbPrev {earlier : List Block} {prev : Block}
    (listedFront : front = earlier ++ [prev]) (free : prev.kind = .free)
    (nonempty : old ≠ []) :
    prev.addr + prev.size = first ∧ carryFree false earlier = false ∧
      Stretch cfg s (u.unlinkFree prev.addr) earlier (prev :: old) next back
        prev.addr (prev.size + size) := by
  subst listedFront
  have layout := stretch.heap.layout
  have listed : earlier ++ prev :: old ++ next :: back =
      earlier ++ [prev] ++ old ++ next :: back := by simp
  have adjacent : prev.addr + prev.size = first := by
    obtain ⟨head, rest, rfl⟩ := List.exists_cons_of_ne_nil nonempty
    have fenced := layout.fenced
    rw [← listed, List.append_assoc] at fenced
    obtain ⟨head', rest', same, headAddr⟩ :=
      fenced.exists_next (by rw [free]; decide)
    obtain ⟨rfl, _⟩ := List.cons.inj same
    exact headAddr.symm.trans stretch.tiles.1
  have wholeMember : prev ∈ earlier ++ [prev] ++ old ++ next :: back := by simp
  have member : prev ∈ freeRuns (earlier ++ [prev] ++ next :: back) :=
    ⟨by simp, free⟩
  have prevTagged := stretch.tagged
  rw [← listed, List.append_assoc, tagged_append] at prevTagged
  have size := prevTagged.2.1.runSize (layout.packable wholeMember)
    (by rw [free]; decide)
  obtain ⟨binned, index⟩ := stretch.indexed
  have rest : earlier ++ [prev] ++ next :: back =
      earlier ++ prev :: next :: back := by simp
  have unlinked := index.unlinkFree stretch.rest_linkable member size
  have nodup := stretch.rest_nodup
  rw [rest] at nodup
  rw [rest, freeRuns_diff nodup] at unlinked
  have separated : carryFree false earlier = false := by
    have coalesced := layout.coalesced
    rw [← listed, List.append_assoc, coalesced_append] at coalesced
    have := coalesced.2.1
    simpa [free] using this
  refine ⟨adjacent, separated, by rw [listed]; exact stretch.heap, ⟨rfl, ?_⟩, ?_, ?_,
    ⟨_, unlinked⟩, fun word notLink => ?_, by simp [stretch.outer]⟩
  · have tiles := stretch.tiles
    unfold Block.stop
    rwa [adjacent, ← Nat.add_assoc, adjacent]
  · intro block inOld
    rcases List.mem_cons.mp inOld with rfl | later
    · rw [free]
      decide
    · exact stretch.noFence block later
  · rw [stretch.adjacent]
    omega
  · rw [listed] at notLink
    rw [index.unlinkFree_frame stretch.rest_linkable member fun isLink =>
      notLink ((isLink.mono Set.sdiff_subset).mono freeRuns_rest)]
    exact stretch.frame word notLink

/-- The first run of the stretch still carries its flag. -/
theorem prevIsFree_first (nonempty : old ≠ []) :
    u.prevIsFree first = carryFree false front := by
  obtain ⟨head, rest, rfl⟩ := List.exists_cons_of_ne_nil nonempty
  have tagged := stretch.tagged
  rw [List.append_assoc, tagged_append] at tagged
  rw [← stretch.tiles.1]
  exact tagged.2.1.prevIsFree (stretch.heap.layout.packable (by simp))
    (stretch.noFence head (by simp))

/-- A free run ending with the stretch can be spliced in. -/
theorem splice (nonempty : old ≠ []) (block : Block)
    (lower : first ≤ block.addr) (ends : block.stop = first + size)
    (aligned : 16 ∣ block.addr) (large : 48 ≤ block.size) :
    Splice cfg u (freeRuns (front ++ next :: back)) block next
      (carryFree (carryFree false front) old) := by
  obtain ⟨endAligned, _, upper⟩ := stretch.bounds
  obtain ⟨_, positive, _⟩ := stretch.first_spec nonempty
  have layout := stretch.heap.layout
  have stopEq : block.stop = block.addr + block.size := rfl
  have sizeAligned : 16 ∣ block.size := by omega
  have outside : ∀ run ∈ freeRuns (front ++ next :: back),
      run.stop ≤ block.addr ∨ block.stop ≤ run.addr := by
    intro run member
    rcases stretch.rest_apart (by omega) member.1 with before | after <;> omega
  exact {
    packable := ⟨large, sizeAligned, by omega⟩
    aligned := aligned
    adjacent := by rw [stretch.adjacent, ends]
    nextTagged := stretch.next_tagged
    nextPackable := stretch.next_packable
    nextLarge := (layout.size_spec next_mem).2
    positive := by omega
    noLink := by
      rintro word (⟨above, below⟩ | isTag) isLink
      · obtain ⟨run, member, place⟩ := isLink
        have runLarge := layout.free_size (freeRuns_rest member)
        have runStop : run.stop = run.addr + run.size := rfl
        rcases outside run member with before | after <;> omega
      · exact layout.not_tagWord_of_linkWord next_mem
          (isLink.mono freeRuns_rest) isTag
    linkable := by
      have linkable := stretch.rest_linkable
      have apart : ∀ run ∈ freeRuns (front ++ next :: back),
          run.addr ≠ block.addr := by
        intro run member same
        have runLarge := layout.free_size (freeRuns_rest member)
        have runStop : run.stop = run.addr + run.size := rfl
        rcases outside run member with before | after <;> omega
      constructor
      · rintro run (rfl | member)
        · exact aligned
        · exact linkable.aligned run member
      · rintro run (rfl | member)
        · omega
        · exact linkable.nonnull run member
      · rintro run (rfl | member)
        · exact sizeAligned
        · exact linkable.sizeAligned run member
      · rintro run (rfl | member)
        · omega
        · exact linkable.sizeBound run member
      · rintro run (rfl | member) other (rfl | otherMember) same
        · rfl
        · exact absurd same.symm (apart other otherMember)
        · exact absurd same (apart run member)
        · exact linkable.injective run member other otherMember same }

/-- Legal runs to put in place of the stretch. -/
structure Retiles (front : List Block) (new : List Block) (next : Block)
    (first size : Nat) : Prop where
  tiles : Tiles first new (first + size)
  sizes : ∀ block ∈ new,
    block.kind ≠ .fence ∧ 48 ≤ block.size ∧ 16 ∣ block.size
  coalesced : Coalesced (carryFree false front) new
  separated : carryFree (carryFree false front) new = true →
    next.kind ≠ .free

variable {new : List Block}

theorem layoutOk (nonempty : old ≠ [])
    (retiles : Retiles front new next first size) :
    LayoutOk s.chunks (front ++ new ++ next :: back) := by
  have layout := stretch.heap.layout
  refine ⟨layout.chunksOk, layout.fenced.replace nonempty stretch.tiles
    retiles.tiles stretch.noFence fun block member =>
      (retiles.sizes block member).1, ?_, ?_⟩
  · intro block member notFence
    rw [List.append_assoc] at member
    rcases List.mem_append.mp member with inFront | later
    · exact layout.sizes block (by simp [inFront]) notFence
    rcases List.mem_append.mp later with inNew | inBack
    · exact (retiles.sizes block inNew).2
    · exact layout.sizes block (List.mem_append_right _ inBack) notFence
  · have coalesced := layout.coalesced
    rw [coalesced_append, coalesced_append] at coalesced
    rw [coalesced_append, coalesced_append, carryFree_append]
    exact ⟨⟨coalesced.1.1, retiles.coalesced⟩,
      fun both => retiles.separated both.1 both.2, coalesced.2.2⟩

/-- The retiled heap, once its new runs and the next one are tagged and its
index is exact. -/
theorem heapOk (nonempty : old ≠ [])
    (retiles : Retiles front new next first size)
    (frame : ∀ word, ¬ (first ≤ word ∧ word < first + size) →
      word ≠ next.addr →
      ¬ LinkWord (freeRuns (front ++ new ++ next :: back)) word →
      t.mem word = u.mem word)
    (newTagged : Tagged cfg t.mem (carryFree false front) new)
    (nextTagged : BlockTagged cfg t.mem
      (carryFree (carryFree false front) new) next)
    (indexed : ∃ binned,
      FreeIndex t binned (freeRuns (front ++ new ++ next :: back)))
    (outer : t.outer = u.outer) :
    HeapOk cfg t (front ++ new ++ next :: back) where
  layout := by
    have chunks : t.chunks = s.chunks :=
      State.chunks_of_outer (outer.trans stretch.outer)
    rw [chunks]
    exact stretch.layoutOk nonempty retiles
  tagged := by
    have layout := stretch.heap.layout
    have newLayout := stretch.layoutOk nonempty retiles
    refine stretch.tagged.replace (fun block member word isTag => ?_) newTagged
      nextTagged
    have inRest : block ∈ front ++ next :: back := by
      simp only [List.mem_append, List.mem_cons] at member ⊢
      tauto
    have large := (layout.size_spec (rest_mem inRest)).2
    have stopEq : block.stop = block.addr + block.size := rfl
    have place : block.addr ≤ word ∧ word < block.stop := by
      rcases isTag.place with rfl | rfl | rfl <;> omega
    have sizePositive := (stretch.first_spec nonempty).2.2.1
    refine frame word ?_ ?_ ?_
    · rcases stretch.rest_apart (by omega) inRest with before | after <;> omega
    · rintro rfl
      have nodup := (List.nodup_cons.mp
        (List.nodup_middle.mp stretch.rest_nodup)).1
      have same := layout.eq_of_holds (rest_mem inRest) next_mem
        place (layout.holds_addr next_mem)
      exact nodup (same ▸ member)
    · exact fun isLink => newLayout.not_tagWord_of_linkWord
        (rest_mem inRest) isLink isTag
  indexed := indexed

end Stretch

end Runner

end Allocazam
