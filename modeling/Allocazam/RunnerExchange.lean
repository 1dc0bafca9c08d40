import Allocazam.RunnerExpansion

/-!
# Runs exchanged for runs

What an operation does to the layout and to the bins: a stretch of runs leaves both,
and the free ones of the runs in its place come in front of their bins.
-/

namespace Allocazam

namespace Runner

variable {cfg : Config} {s t u : State} {listed : Nat → List Nat}

/-- The bins `listed` without the runs `old`. -/
def thinned (listed : Nat → List Nat) (old : List Block) (idx : Nat) : List Nat :=
  (listed idx).filter fun h => h ∉ old.map Block.addr

/-- The headers that the runs `new` add to a bin. -/
def newlyBinned (new : List Block) (idx : Nat) : List Nat :=
  (new.filter fun run => run.isFree ∧ binIndexFor run.size = idx).map Block.addr

/-- The runs `new` have taken the place of `old` between `front` and `back`. -/
structure Exchanged (cfg : Config) (s t : State) (front old new back : List Block) :
    Prop where
  before : HeapOk cfg s (front ++ old ++ back)
  after : HeapOk cfg t (front ++ new ++ back)
  bins : ∀ idx < 536, t.binRuns idx =
    newlyBinned new idx ++ thinned s.binRuns old idx
  outer : t.outer = s.outer

theorem newlyBinned_used {addr size idx : Nat} {new : List Block} :
    newlyBinned (⟨addr, size, .used⟩ :: new) idx = newlyBinned new idx := by
  simp [newlyBinned, Block.isFree]

theorem update_eq_newlyBinned {addr size idx : Nat} :
    Function.update listed (binIndexFor size)
      (addr :: listed (binIndexFor size)) idx =
      newlyBinned [⟨addr, size, .free⟩] idx ++ listed idx := by
  by_cases same : binIndexFor size = idx
  · subst same
    simp [newlyBinned, Block.isFree]
  · rw [Function.update_of_ne (Ne.symm same)]
    simp [newlyBinned, same]

namespace FreeIndex

variable {free : Set Block} {binned binned' : Nat → List Nat}

theorem relist (index : FreeIndex s binned free)
    (same : ∀ idx < 536, binned' idx = binned idx) : FreeIndex s binned' free where
  deque idx bound := by
    rw [same idx bound]
    exact index.deque idx bound
  mem_iff idx bound h := by
    rw [same idx bound]
    exact index.mem_iff idx bound h
  maskBound := index.maskBound
  maskBit := index.maskBit

section Thinned

variable {block : Block} {old old' : List Block}
  (index : FreeIndex u (thinned listed old) free) (linkable : Linkable free)
  (member : block ∈ free) (joins : ∀ run, run ∈ old' ↔ run ∈ old ∨ run = block)

include index linkable member joins

theorem erase_thinned {idx : Nat} (bound : idx < 536) :
    Function.update (thinned listed old) (binIndexFor block.size)
      ((thinned listed old (binIndexFor block.size)).erase block.addr) idx =
      thinned listed old' idx := by
  rw [erased_eq index linkable member bound, (index.nodup bound).erase_eq_filter]
  unfold thinned
  rw [List.filter_filter]
  refine List.filter_congr fun h _ => ?_
  rw [Bool.eq_iff_iff]
  simp only [List.mem_map, joins, or_and_right, exists_or, exists_eq_left, not_or,
    decide_eq_true_eq, Bool.and_eq_true, bne_iff_ne, ne_eq]
  rw [and_comm, eq_comm]

theorem unlinkFree_thinned (size : u.runSize block.addr = block.size) :
    FreeIndex (u.unlinkFree block.addr) (thinned listed old') (free \ {block}) :=
  (index.unlinkFree linkable member size).relist fun _ bound =>
    (index.erase_thinned linkable member joins bound).symm

end Thinned

end FreeIndex

theorem HeapOk.thinned_used {blocks : List Block} {block : Block}
    (heap : HeapOk cfg s blocks) (member : block ∈ usedRuns blocks) :
    FreeIndex s (thinned s.binRuns [block]) (freeRuns blocks) := by
  obtain ⟨binned, index⟩ := heap.indexed
  refine index.relist fun idx bound => ?_
  unfold thinned
  rw [heap.binRuns_eq index bound, List.filter_eq_self]
  intro h inBin
  obtain ⟨run, runMember, rfl, _⟩ := (index.mem_iff idx bound h).mp inBin
  simp only [List.map_cons, List.map_nil, List.mem_singleton, decide_eq_true_eq]
  intro same
  rw [heap.layout.eq_of_addr_eq runMember.1 member.1 same] at runMember
  exact absurd (runMember.2.symm.trans member.2) (by decide)

theorem HeapOk.thinned_nil {blocks : List Block} (heap : HeapOk cfg s blocks) :
    FreeIndex s (thinned s.binRuns []) (freeRuns blocks) := by
  obtain ⟨binned, index⟩ := heap.indexed
  refine index.relist fun idx bound => ?_
  rw [← heap.binRuns_eq index bound]
  simp [thinned]

namespace Exchanged

variable {front old new back : List Block}

theorem of_index (before : HeapOk cfg s (front ++ old ++ back))
    (after : HeapOk cfg t (front ++ new ++ back))
    (index : FreeIndex t (fun idx => newlyBinned new idx ++ thinned s.binRuns old idx)
      (freeRuns (front ++ new ++ back)))
    (outer : t.outer = s.outer) :
    Exchanged cfg s t front old new back where
  before := before
  after := after
  bins _ bound := after.binRuns_eq index bound
  outer := outer

theorem congr {r : State} (exchanged : Exchanged cfg s t front old new back)
    (mem : r.mem = t.mem) (bins : r.bins = t.bins)
    (mask : r.binNonemptyMask = t.binNonemptyMask) (outer : r.outer = t.outer) :
    Exchanged cfg s r front old new back := by
  have chunks := State.chunks_of_outer outer
  have after := exchanged.after.congr chunks mem bins mask
  obtain ⟨binned, index⟩ := exchanged.after.indexed
  have indexed := index.congr bins mask fun word _ => by rw [mem]
  refine ⟨exchanged.before, after, fun idx bound => ?_, outer.trans exchanged.outer⟩
  rw [after.binRuns_eq indexed bound, ← exchanged.after.binRuns_eq index bound]
  exact exchanged.bins idx bound

end Exchanged

/-- What a run of `total` bytes gives for `needed` bytes: as much, or all of it
when no run is left to split off. -/
def carved (needed total : Nat) : Nat :=
  if needed + (minFreeRunSize + splitRemainderThreshold) ≤ total then needed else total

/-- The runs in place of a stretch of `total` bytes from which `needed` are
allocated. -/
def carvedRuns (addr needed total : Nat) : List Block :=
  ⟨addr, carved needed total, .used⟩ :: remainder addr (carved needed total) total

section Retiled

variable {blocks front old back : List Block} {addr needed granted total : Nat}
  {binned : Nat → List Nat}

theorem carvedRuns_whole (short : total < needed + 112) :
    carved needed total = total ∧
      carvedRuns addr needed total = [⟨addr, total, .used⟩] := by
  have whole : carved needed total = total :=
    if_neg (by simp only [minFreeRunSize_eq, splitRemainderThreshold_eq]; omega)
  unfold carvedRuns remainder
  rw [whole, if_neg (lt_irrefl _)]
  exact ⟨rfl, rfl⟩

theorem carvedRuns_split (room : needed + 112 ≤ total) :
    carved needed total = needed ∧ carvedRuns addr needed total =
      [⟨addr, needed, .used⟩, ⟨addr + needed, total - needed, .free⟩] := by
  have part : carved needed total = needed :=
    if_pos (by simp only [minFreeRunSize_eq, splitRemainderThreshold_eq]; omega)
  unfold carvedRuns remainder
  rw [part, if_pos (by omega)]
  exact ⟨rfl, rfl⟩

theorem Retiled.exchanged_whole
    (retiled : Retiled cfg s t blocks (front ++ [⟨addr, total, .used⟩] ++ back)
      binned addr granted total)
    (lists : ∀ idx < 536, binned idx = thinned s.binRuns old idx)
    (before : HeapOk cfg s (front ++ old ++ back)) (short : total < needed + 112) :
    Exchanged cfg s t front old (carvedRuns addr needed total) back := by
  rw [(carvedRuns_whole short).2]
  refine Exchanged.of_index before retiled.heap ?_ retiled.outer
  refine retiled.index.relist fun idx bound => ?_
  rw [newlyBinned_used, lists idx bound]
  rfl

theorem Retiled.exchanged_split
    (retiled : Retiled cfg s t blocks (front ++ [⟨addr, needed, .used⟩,
        ⟨addr + needed, total - needed, .free⟩] ++ back)
      (Function.update binned (binIndexFor (total - needed))
        ((addr + needed) :: binned (binIndexFor (total - needed))))
      addr granted total)
    (lists : ∀ idx < 536, binned idx = thinned s.binRuns old idx)
    (before : HeapOk cfg s (front ++ old ++ back)) (room : needed + 112 ≤ total) :
    Exchanged cfg s t front old (carvedRuns addr needed total) back := by
  rw [(carvedRuns_split room).2]
  refine Exchanged.of_index before retiled.heap ?_ retiled.outer
  refine retiled.index.relist fun idx bound => ?_
  rw [newlyBinned_used, update_eq_newlyBinned, lists idx bound]

end Retiled

section Allocate

variable {front back : List Block} {run : Block} {needed : Nat}
  (heap : HeapOk cfg s (front ++ run :: back)) (free : run.kind = .free)
  (normalized : Normalized needed) (fits : needed ≤ run.size)

include heap free normalized fits

theorem allocateFromFreeRun_exchanged :
    (s.allocateFromFreeRun cfg run.addr needed).2 = run.addr + 16 ∧
      Exchanged cfg s (s.allocateFromFreeRun cfg run.addr needed).1 front [run]
        (carvedRuns run.addr needed run.size) back := by
  have member : run ∈ freeRuns (front ++ run :: back) := ⟨by simp, free⟩
  have notFence : run.kind ≠ .fence := by rw [free]; decide
  have sizeEq := heap.runSize member.1 notFence
  have flagEq : s.prevIsFree run.addr = carryFree false front := by
    have tagged := heap.tagged
    rw [tagged_append] at tagged
    exact tagged.2.1.prevIsFree (heap.layout.packable member.1) notFence
  have remEq : wrapSub run.size needed = run.size - needed :=
    wrapSub_eq fits (heap.layout.size_lt member.1)
  have unlinked := heap.thinned_nil.unlinkFree_thinned heap.layout.linkable member
    (show ∀ other, other ∈ [run] ↔ other ∈ [] ∨ other = run by simp) sizeEq
  rw [freeRuns_diff heap.layout.nodup] at unlinked
  obtain ⟨later, rest, rfl, separated, stretch⟩ :=
    (Stretch.start heap).absorbNext free
  rw [Nat.zero_add] at stretch
  have before : HeapOk cfg s (front ++ [run] ++ later :: rest) := by
    simpa using heap
  refine ⟨rfl, ?_⟩
  unfold State.allocateFromFreeRun State.addLiveBytes
  simp only [sizeEq, flagEq, remEq, minFreeRunSize_eq, splitRemainderThreshold_eq]
  by_cases split : run.size - needed ≥ 48 + 64
  · rw [if_pos split]
    have retiled := stretch.makeRemainder_retiled (by simp) separated unlinked
      normalized.large normalized.aligned (by omega)
      (v := ((s.unlinkFree run.addr).setHeader run.addr needed
        false (carryFree false front)).record cfg fun stats =>
          { stats with splitCount := wrapAdd stats.splitCount 1 })
      (by simp [State.setHeader]) (by simp [State.setHeader])
      (by simp [State.setHeader]) (by simp [State.setHeader])
    exact (retiled.exchanged_split (fun _ _ => rfl) before (by omega)).congr
      (by simp) (by simp) (by simp) (by simp)
  · rw [if_neg split]
    have retiled := stretch.takeWhole_retiled (by simp) unlinked _ rfl
    exact (retiled.exchanged_whole (fun _ _ => rfl) before (by omega)).congr
      (by simp) (by simp) (by simp) (by simp)

end Allocate

/-- An allocated run with its free neighbours, between runs that are not free. -/
structure Gathered (front before : List Block) (block : Block)
    (behind back : List Block) : Prop where
  used : block.kind = .used
  beforeFree : ∀ run ∈ before, run.kind = .free
  behindFree : ∀ run ∈ behind, run.kind = .free
  prevUsed : carryFree false front = false
  nextUsed : ∃ next rest, back = next :: rest ∧ next.kind ≠ .free

/-- Every allocated run can be gathered with its neighbours. -/
theorem HeapOk.gathered {blocks : List Block} {block : Block}
    (heap : HeapOk cfg s blocks) (member : block ∈ usedRuns blocks) :
    ∃ front before behind back,
      blocks = front ++ (before ++ [block] ++ behind) ++ back ∧
        Gathered front before block behind back := by
  obtain ⟨inBlocks, used⟩ := member
  obtain ⟨ahead, back, rfl⟩ := List.append_of_mem inBlocks
  obtain ⟨next, rest, rfl, stretch⟩ := Stretch.startUsed heap used
  have behindSplit : ∃ behind rest', next :: rest = behind ++ rest' ∧
      (∀ run ∈ behind, run.kind = .free) ∧
      ∃ later rest'', rest' = later :: rest'' ∧ later.kind ≠ .free := by
    by_cases free : next.kind = .free
    · obtain ⟨later, rest, rfl, separated, _⟩ := stretch.absorbNext free
      exact ⟨[next], later :: rest, rfl, by simp [free], later, rest, rfl, separated⟩
    · exact ⟨[], next :: rest, rfl, by simp, next, rest, rfl, free⟩
  have beforeSplit : ∃ front before, ahead = front ++ before ∧
      (∀ run ∈ before, run.kind = .free) ∧ carryFree false front = false := by
    cases carries : carryFree false ahead with
    | true =>
        obtain ⟨front, prev, rfl, free⟩ := exists_last_of_carryFree carries
        exact ⟨front, [prev], rfl, by simp [free],
          (stretch.absorbPrev rfl free (by simp)).2.1⟩
    | false => exact ⟨ahead, [], by simp, by simp, carries⟩
  obtain ⟨behind, rest', listed, behindFree, nextUsed⟩ := behindSplit
  obtain ⟨front, before, rfl, beforeFree, prevUsed⟩ := beforeSplit
  refine ⟨front, before, behind, rest', ?_, used, beforeFree, behindFree, prevUsed,
    nextUsed⟩
  rw [listed]
  simp

theorem sum_sizes_of_tiles {blocks : List Block} {first last : Nat}
    (tiles : Tiles first blocks last) :
    first + (blocks.map Block.size).sum = last := by
  induction blocks generalizing first with
  | nil => exact tiles
  | cons block blocks ih =>
      obtain ⟨rfl, rest⟩ := tiles
      have later := ih rest
      unfold Block.stop at later
      rw [List.map_cons, List.sum_cons, ← Nat.add_assoc]
      exact later

def merged (runs : List Block) : Block :=
  ⟨(runs.head?.map Block.addr).getD 0, (runs.map Block.size).sum, .free⟩

namespace Stretch

variable {front old back behind before : List Block} {block next : Block}
  {first size : Nat}

theorem merged_eq (stretch : Stretch cfg s u front old next back first size)
    (nonempty : old ≠ []) : merged old = ⟨first, size, .free⟩ := by
  have total := sum_sizes_of_tiles stretch.tiles
  obtain ⟨head, rest, rfl⟩ := List.exists_cons_of_ne_nil nonempty
  have headAddr : head.addr = first := stretch.tiles.1
  unfold merged
  rw [List.head?_cons, Option.map_some, Option.getD_some, headAddr]
  congr 1
  omega

theorem coalesceNext_gathers
    (stretch : Stretch cfg s u front [block] next back block.addr block.size)
    (index : FreeIndex u (thinned listed [block]) (freeRuns (front ++ next :: back)))
    {later : Block} {rest : List Block} (behindEq : next :: back = behind ++ later :: rest)
    (behindFree : ∀ run ∈ behind, run.kind = .free) (nextUsed : later.kind ≠ .free) :
    ∃ t size, u.coalesceNext cfg block.addr block.size = (t, size) ∧
      Stretch cfg s t front ([block] ++ behind) later rest block.addr size ∧
      FreeIndex t (thinned listed ([block] ++ behind))
        (freeRuns (front ++ later :: rest)) := by
  cases behind with
  | nil =>
      obtain ⟨rfl, rfl⟩ := List.cons.inj behindEq
      exact ⟨u, block.size, stretch.coalesceNext_stays nextUsed, stretch, index⟩
  | cons run more =>
      obtain ⟨rfl, rfl⟩ := List.cons.inj behindEq
      have free := behindFree next (by simp)
      have member : next ∈ freeRuns (front ++ next :: (more ++ later :: rest)) :=
        ⟨by simp, free⟩
      have size := stretch.next_tagged.runSize stretch.next_packable
        (by rw [free]; decide)
      have unlinked := index.unlinkFree_thinned stretch.rest_linkable member
        (show ∀ run, run ∈ [block] ++ [next] ↔ run ∈ [block] ∨ run = next by simp) size
      rw [freeRuns_diff stretch.rest_nodup] at unlinked
      obtain ⟨after, rest', restEq, separated, absorbed⟩ := stretch.absorbNext free
      cases more with
      | cons run more =>
          obtain ⟨rfl, _⟩ := List.cons.inj restEq
          exact absurd (behindFree run (by simp)) separated
      | nil =>
          obtain ⟨rfl, rfl⟩ := List.cons.inj restEq
          exact ⟨_, _, stretch.coalesceNext_absorbs free,
            absorbed.congr (by simp) (by simp) (by simp) (by simp),
            unlinked.congr (by simp) (by simp) fun _ _ => by simp⟩

theorem coalescePrev_gathers
    (stretch : Stretch cfg s u (front ++ before) old next back first size)
    (nonempty : old ≠ [])
    (index : FreeIndex u (thinned listed old)
      (freeRuns (front ++ before ++ next :: back)))
    (beforeFree : ∀ run ∈ before, run.kind = .free)
    (prevUsed : carryFree false front = false) :
    ∃ t first' size', u.coalescePrev cfg first size = (t, first', size') ∧
      Stretch cfg s t front (before ++ old) next back first' size' ∧
      FreeIndex t (thinned listed (before ++ old))
        (freeRuns (front ++ next :: back)) := by
  rcases List.eq_nil_or_concat before with rfl | ⟨more, prev, rfl⟩
  · rw [List.append_nil] at stretch index
    exact ⟨u, first, size, stretch.coalescePrev_stays nonempty prevUsed, stretch, index⟩
  · rw [List.concat_eq_append] at *
    have free := beforeFree prev (by simp)
    rw [← List.append_assoc] at stretch index
    have layout := stretch.heap.layout
    have rest : front ++ more ++ [prev] ++ next :: back =
        front ++ more ++ prev :: next :: back := by simp
    have member : prev ∈ freeRuns (front ++ more ++ [prev] ++ next :: back) :=
      ⟨by simp, free⟩
    have inBlocks : prev ∈ front ++ more ++ [prev] ++ old ++ next :: back := by simp
    obtain ⟨flag, tagged⟩ := stretch.tagged.exists_flag inBlocks
    have size := tagged.runSize (layout.packable inBlocks) (by rw [free]; decide)
    have unlinked := index.unlinkFree_thinned stretch.rest_linkable member
      (show ∀ run, run ∈ prev :: old ↔ run ∈ old ∨ run = prev by simp [or_comm]) size
    have nodup := stretch.rest_nodup
    rw [rest] at nodup
    rw [rest, freeRuns_diff nodup] at unlinked
    obtain ⟨_, separated, absorbed⟩ := stretch.absorbPrev rfl free nonempty
    rcases List.eq_nil_or_concat more with rfl | ⟨more, run, rfl⟩
    · rw [List.append_nil] at absorbed unlinked
      exact ⟨_, _, _, stretch.coalescePrev_absorbs nonempty free,
        absorbed.congr (by simp) (by simp) (by simp) (by simp),
        unlinked.congr (by simp) (by simp) fun _ _ => by simp⟩
    · rw [List.concat_eq_append] at *
      rw [carryFree_append, carryFree_append] at separated
      have runFree := beforeFree run (by simp)
      simp [Block.isFree, runFree] at separated

end Stretch

section Deallocate

variable {front before behind back : List Block} {block : Block}

/-- A deallocated run and its free neighbours become one free run. -/
theorem deallocateBytes_exchanged
    (heap : HeapOk cfg s (front ++ (before ++ [block] ++ behind) ++ back))
    (gathered : Gathered front before block behind back) :
    Exchanged cfg s (s.deallocateBytes cfg (block.addr + 16)) front
      (before ++ [block] ++ behind) [merged (before ++ [block] ++ behind)] back := by
  obtain ⟨used, beforeFree, behindFree, prevUsed, later, rest, rfl, nextUsed⟩ := gathered
  have listedEq : front ++ (before ++ [block] ++ behind) ++ later :: rest =
      front ++ before ++ block :: (behind ++ later :: rest) := by simp
  have member : block ∈ usedRuns (front ++ (before ++ [block] ++ behind) ++
      later :: rest) := ⟨by simp, used⟩
  generalize recordedEq : (s.record cfg fun stats => { stats with
      deallocateCalls := wrapAdd stats.deallocateCalls 1 }).record cfg
        (fun stats => { stats with
          liveBytes := wrapSub stats.liveBytes (wrapSub block.size 16) }) = u
  have recordedMem : u.mem = s.mem := by rw [← recordedEq]; simp
  have recordedBins : u.bins = s.bins := by rw [← recordedEq]; simp
  have recordedMask : u.binNonemptyMask = s.binNonemptyMask := by
    rw [← recordedEq]; simp
  have recordedOuter : u.outer = s.outer := by rw [← recordedEq]; simp
  have sizeEq : (s.record cfg fun stats => { stats with
      deallocateCalls := wrapAdd stats.deallocateCalls 1 }).runSize block.addr =
      block.size := by
    unfold State.runSize
    rw [record_mem]
    exact heap.runSize member.1 (by rw [used]; decide)
  have called : s.deallocateBytes cfg (block.addr + 16) =
      let next := u.coalesceNext cfg block.addr block.size
      let joined := next.1.coalescePrev cfg block.addr next.2
      joined.1.makeFree joined.2.1 joined.2.2 := by
    rw [← recordedEq]
    unfold State.deallocateBytes
    rw [if_neg (by omega)]
    dsimp only
    rw [headerFromPayload_eq, Nat.add_sub_cancel, headerBytes_eq, sizeEq]
  have index : FreeIndex u (thinned s.binRuns [block])
      (freeRuns (front ++ before ++ block :: (behind ++ later :: rest))) := by
    rw [← listedEq]
    exact (heap.thinned_used member).congr recordedBins recordedMask fun _ _ => by
      rw [recordedMem]
  rw [freeRuns_skip (show block.kind ≠ .free by rw [used]; decide)] at index
  obtain ⟨next, back, backEq, started⟩ := Stretch.startUsed (listedEq ▸ heap) used
  rw [backEq] at index
  have stretch := started.congr recordedMem recordedBins recordedMask recordedOuter
  obtain ⟨t, size, nextEq, nextStretch, nextIndex⟩ :=
    stretch.coalesceNext_gathers index backEq.symm behindFree nextUsed
  obtain ⟨r, first, size', prevEq, gathered, gatheredIndex⟩ :=
    nextStretch.coalescePrev_gathers (by simp) nextIndex beforeFree prevUsed
  have nonempty : before ++ ([block] ++ behind) ≠ [] := by simp
  obtain ⟨made, madeIndex, _, outer⟩ :=
    gathered.makeFree_indexed nonempty nextUsed gatheredIndex prevUsed
  rw [called, nextEq]
  dsimp only
  rw [prevEq]
  dsimp only
  rw [List.append_assoc before, gathered.merged_eq nonempty]
  refine Exchanged.of_index (by simpa using heap) made ?_ outer
  exact madeIndex.relist fun idx _ => update_eq_newlyBinned.symm

end Deallocate

/-- An allocated run grown into the free run behind it. -/
theorem expandInto_exchanged {front back : List Block} {block next : Block}
    {needed : Nat} (heap : HeapOk cfg s (front ++ block :: next :: back))
    (used : block.kind = .used) (free : next.kind = .free) (aligned : 16 ∣ needed)
    (large : block.size ≤ needed) (fits : needed ≤ block.size + next.size) :
    let expanded := s.expandInto cfg block.addr next.addr block.size
      (block.size + next.size) needed
    expanded.2 = carved needed (block.size + next.size) - 16 ∧
      Exchanged cfg s expanded.1 front [block, next]
        (carvedRuns block.addr needed (block.size + next.size)) back := by
  have blockMember : block ∈ usedRuns (front ++ block :: next :: back) :=
    ⟨by simp, used⟩
  have nextMember : next ∈ freeRuns (front ++ block :: next :: back) :=
    ⟨by simp, free⟩
  have index := heap.thinned_used blockMember
  have before : HeapOk cfg s (front ++ [block, next] ++ back) := by simpa using heap
  have joins : ∀ run, run ∈ [block, next] ↔ run ∈ [block] ∨ run = next := by simp
  have lists : ∀ idx < 536, _ = thinned s.binRuns [block, next] idx := fun _ bound =>
    index.erase_thinned heap.layout.linkable nextMember joins bound
  have exact := expandInto_retiled heap used free index aligned large fits
  dsimp only at exact ⊢
  generalize s.expandInto cfg block.addr next.addr block.size (block.size + next.size)
    needed = expanded at exact ⊢
  rcases exact with ⟨room, reported, retiled⟩ | ⟨short, reported, retiled⟩
  · refine ⟨?_, retiled.exchanged_split lists before room⟩
    rw [(@carvedRuns_split block.addr _ _ room).1]
    exact reported
  · refine ⟨?_, retiled.exchanged_whole lists before short⟩
    rw [(@carvedRuns_whole block.addr _ _ short).1]
    exact reported

theorem write_exchanged {blocks : List Block} {run : Block} {word : Nat}
    (heap : HeapOk cfg s blocks) (member : run ∈ usedRuns blocks) (value : Nat)
    (lower : run.addr + 16 ≤ word) (upper : word < run.stop) :
    Exchanged cfg s (s.write word value) blocks [] [] [] := by
  have written := heap.write member value lower upper
  have index := heap.thinned_nil.write heap member value lower upper
  refine Exchanged.of_index (by simpa using heap) (by simpa using written) ?_ rfl
  simpa [newlyBinned] using index

end Runner

end Allocazam
