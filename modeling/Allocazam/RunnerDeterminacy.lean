import Allocazam.RunnerBinLists

/-!
# The layout is determined by what is live

Free runs are the maximal gaps between allocated ones, so two heaps over the
same chunks with the same allocated runs agree in everything but the order
inside the bins.  In particular the order in which payloads are released, and
by which route, does not matter.
-/

namespace Allocazam

namespace Runner

variable {cfg cfg' : Config} {s t : State} {blocks blocks' : List Block}

/-- Two states agree on their chunks' runs, the tags of these, the members of
every bin and the mask. -/
structure SameLayout (s t : State) : Prop where
  runs : ∀ chunk ∈ s.chunks, s.runsIn chunk = t.runsIn chunk
  flags : ∀ chunk ∈ s.chunks, ∀ run ∈ s.runsIn chunk,
    s.isFree run.addr = t.isFree run.addr ∧
      s.prevIsFree run.addr = t.prevIsFree run.addr
  footers : ∀ chunk ∈ s.chunks, ∀ run ∈ s.runsIn chunk,
    s.isFree run.addr = true →
      s.mem (s.footerPtr run.addr) = t.mem (t.footerPtr run.addr)
  bins : ∀ idx < binCount, (s.binRuns idx).Perm (t.binRuns idx)
  mask : ∀ word < binWordCount, s.binNonemptyMask word = t.binNonemptyMask word

theorem ChunkView.coalesced (heap : HeapOk cfg s blocks) {chunk : ChunkNode}
    (view : ChunkView cfg s blocks chunk) :
    Coalesced false (s.runsIn chunk) := by
  obtain ⟨front, back, listed, before⟩ := view.split
  have coalesced := heap.layout.coalesced
  rw [listed, List.append_assoc, coalesced_append, before,
    coalesced_append] at coalesced
  exact coalesced.2.1

/-- Chunks that share an address are the same. -/
theorem HeapOk.chunk_unique (heap : HeapOk cfg s blocks)
    {one two : ChunkNode} (oneMember : one ∈ s.chunks)
    (twoMember : two ∈ s.chunks) {word : Nat}
    (inOne : one.first ≤ word ∧ word < one.first + one.bytes)
    (inTwo : two.first ≤ word ∧ word < two.first + two.bytes) : one = two := by
  have symmetric : Std.Symm fun one two : ChunkNode =>
      one.first + one.bytes ≤ two.first ∨
        two.first + two.bytes ≤ one.first := ⟨fun _ _ => Or.symm⟩
  by_contra different
  have apart := heap.layout.chunksOk.apart.forall oneMember twoMember different
  omega

/-- The mask only depends on which bins are empty. -/
theorem mask_eq (heap : HeapOk cfg s blocks) (other : HeapOk cfg' t blocks')
    (empty : ∀ idx < 536, s.binRuns idx = [] ↔ t.binRuns idx = []) {word : Nat}
    (bound : word < binWordCount) :
    s.binNonemptyMask word = t.binNonemptyMask word := by
  obtain ⟨binned, index⟩ := heap.indexed
  obtain ⟨otherBinned, otherIndex⟩ := other.indexed
  simp only [binWordCount_eq] at bound
  refine Nat.eq_of_testBit_eq fun bit => ?_
  by_cases inWord : bit < 64
  · have sBit : s.binBit (64 * word + bit) =
        (s.binNonemptyMask word).testBit bit := by
      unfold State.binBit
      congr 2 <;> omega
    have tBit : t.binBit (64 * word + bit) =
        (t.binNonemptyMask word).testBit bit := by
      unfold State.binBit
      congr 2 <;> omega
    rw [← sBit, ← tBit, Bool.eq_iff_iff, index.maskBit _ (by omega),
      otherIndex.maskBit _ (by omega)]
    refine and_congr_right fun inBins => ?_
    rw [← binRuns_ne_nil heap inBins, ← binRuns_ne_nil other inBins]
    exact not_congr (empty _ inBins)
  · have large : 2 ^ 64 ≤ 2 ^ bit := Nat.pow_le_pow_right (by decide) (by omega)
    rw [Nat.testBit_lt_two_pow ((index.maskBound word).trans_le large),
      Nat.testBit_lt_two_pow ((otherIndex.maskBound word).trans_le large)]

section Determined

variable (heap : HeapOk cfg s blocks) (other : HeapOk cfg' t blocks')
  (chunks : ∀ chunk, chunk ∈ s.chunks ↔ chunk ∈ t.chunks)
  (allocated : ∀ addr size, s.Allocated addr size ↔ t.Allocated addr size)

include heap other chunks allocated

/-- An allocated run of a chunk is found in the same chunk of the other
state. -/
theorem used_transfer {chunk : ChunkNode} (member : chunk ∈ s.chunks)
    {run : Block} (used : run.kind = .used) (inChunk : run ∈ s.runsIn chunk) :
    run ∈ t.runsIn chunk := by
  have shape : (⟨run.addr, run.size, .used⟩ : Block) = run := by rw [← used]
  obtain ⟨found, foundMember, inFound⟩ := (allocated run.addr run.size).mp
    ⟨chunk, member, by rwa [shape]⟩
  rw [shape] at inFound
  have view := heap.chunkView member
  have foundView := other.chunkView foundMember
  have bounds := view.tiles.bounds run inChunk
  have foundBounds := foundView.tiles.bounds run inFound
  have large := (view.size_spec heap inChunk).2.2
  have stopEq : run.stop = run.addr + run.size := rfl
  have same := other.chunk_unique ((chunks chunk).mp member) foundMember
    (show chunk.first ≤ run.addr ∧ run.addr < chunk.first + chunk.bytes by omega)
    (by omega)
  rwa [same]

theorem runsIn_eq {chunk : ChunkNode} (member : chunk ∈ s.chunks) :
    s.runsIn chunk = t.runsIn chunk := by
  have otherMember := (chunks chunk).mp member
  have view := heap.chunkView member
  have otherView := other.chunkView otherMember
  refine view.tiles.eq_of_used_iff otherView.tiles (view.coalesced heap)
    (otherView.coalesced other) view.noFence otherView.noFence
    (fun run inChunk => by have := (view.size_spec heap inChunk).2.2; omega)
    (fun run inChunk => by
      have := (otherView.size_spec other inChunk).2.2
      omega) fun run used => ⟨?_, ?_⟩
  · exact used_transfer heap other chunks allocated member used
  · exact used_transfer other heap (fun chunk => (chunks chunk).symm)
      (fun addr size => (allocated addr size).symm) otherMember used

theorem sameLayout : SameLayout s t := by
  have runs : ∀ chunk ∈ s.chunks, s.runsIn chunk = t.runsIn chunk :=
    fun chunk member => runsIn_eq heap other chunks allocated member
  have free : ∀ chunk ∈ s.chunks, ∀ run ∈ s.runsIn chunk,
      s.isFree run.addr = t.isFree run.addr := by
    intro chunk member run inChunk
    rw [(heap.chunkView member).isFree heap inChunk,
      (other.chunkView ((chunks chunk).mp member)).isFree other
        (by rwa [← runs chunk member])]
  have bins : ∀ idx < 536, (s.binRuns idx).Perm (t.binRuns idx) := by
    intro idx bound
    refine (List.perm_ext_iff_of_nodup (binRuns_deque heap bound).isStack.nodup
      (binRuns_deque other bound).isStack.nodup).mpr fun h => ?_
    rw [mem_binRuns heap bound, mem_binRuns other bound]
    constructor
    · rintro ⟨chunk, member, run, inChunk, isFree, place⟩
      exact ⟨chunk, (chunks chunk).mp member, run,
        by rwa [← runs chunk member],
        by rwa [← free chunk member run inChunk], place⟩
    · rintro ⟨chunk, otherMember, run, inChunk, isFree, place⟩
      have member := (chunks chunk).mpr otherMember
      rw [← runs chunk member] at inChunk
      exact ⟨chunk, member, run, inChunk,
        by rwa [free chunk member run inChunk], place⟩
  refine ⟨runs, fun chunk member run inChunk => ⟨free chunk member run inChunk,
    ?_⟩, fun chunk member run inChunk isFree => ?_, bins, fun word bound => ?_⟩
  · obtain ⟨front, back, listed⟩ := List.append_of_mem inChunk
    rw [(heap.chunkView member).prevIsFree heap listed,
      (other.chunkView ((chunks chunk).mp member)).prevIsFree other
        ((runs chunk member).symm.trans listed)]
  · have view := heap.chunkView member
    have otherView := other.chunkView ((chunks chunk).mp member)
    have otherChunk : run ∈ t.runsIn chunk := by rwa [← runs chunk member]
    have otherFree : t.isFree run.addr = true := by
      rwa [← free chunk member run inChunk]
    obtain ⟨footer, _, _, place⟩ := view.free_words heap inChunk isFree
    obtain ⟨otherFooter, _, _, otherPlace⟩ :=
      otherView.free_words other otherChunk otherFree
    have here : s.footerPtr run.addr = run.stop - 8 := by omega
    have there : t.footerPtr run.addr = run.stop - 8 := by omega
    rw [here, there, footer, otherFooter]
  · exact mask_eq heap other (fun idx bound => by
      rw [← List.length_eq_zero_iff, ← List.length_eq_zero_iff,
        (bins idx bound).length_eq]) bound

end Determined

/-- A heap without allocated runs has one free run in each chunk. -/
theorem runsIn_of_unallocated (heap : HeapOk cfg s blocks)
    (empty : ∀ addr size, ¬ s.Allocated addr size) {chunk : ChunkNode}
    (member : chunk ∈ s.chunks) :
    s.runsIn chunk = [⟨chunk.first, chunk.bytes - 16, .free⟩] := by
  have view := heap.chunkView member
  have free : ∀ run ∈ s.runsIn chunk, run.kind = .free := by
    intro run inChunk
    have notFence := view.noFence run inChunk
    have notUsed : run.kind ≠ .used := by
      intro used
      refine empty run.addr run.size ⟨chunk, member, ?_⟩
      have shape : (⟨run.addr, run.size, .used⟩ : Block) = run := by rw [← used]
      rwa [shape]
    cases kind : run.kind <;> simp_all
  have large := heap.layout.chunksOk.large chunk member
  refine view.tiles.eq_of_used_iff ⟨rfl, ?_⟩ (view.coalesced heap) (by simp)
    view.noFence (by simp)
    (fun run inChunk => by have := (view.size_spec heap inChunk).2.2; omega)
    (by simp only [List.mem_singleton]; rintro run rfl; simp only; omega)
    fun run used => ⟨fun inChunk => ?_, fun single => ?_⟩
  · simp only [Block.stop, tiles_nil]
    omega
  · exact absurd (used.symm.trans (free run inChunk)) (by decide)
  · rw [List.mem_singleton.mp single] at used
    cases used

/-- A way of releasing: a direct deallocation, a remote push, or a drain in
between. -/
inductive Release where
  | direct (payload : Nat)
  | remote (payload : Nat)
  | drain
  deriving DecidableEq, Repr

def Release.payload : Release → Option Nat
  | .direct payload => some payload
  | .remote payload => some payload
  | .drain => none

def State.release (cfg : Config) (s : State) : Release → State
  | .direct payload => s.deallocateBytes cfg payload
  | .remote payload => s.remotePush payload
  | .drain => (s.drainRemote cfg).1

def State.releaseAll (cfg : Config) (s : State) (plan : List Release) : State :=
  ((plan.foldl (State.release cfg) s).drainRemote cfg).1

@[simp] theorem coalesceNext_outer (current size : Nat) :
    (s.coalesceNext cfg current size).1.outer = s.outer := by
  unfold State.coalesceNext
  dsimp only
  split <;> simp

@[simp] theorem coalescePrev_outer (current size : Nat) :
    (s.coalescePrev cfg current size).1.outer = s.outer := by
  unfold State.coalescePrev
  dsimp only
  split
  · split <;> simp
  · rfl

@[simp] theorem deallocateBytes_outer (payload : Nat) :
    (s.deallocateBytes cfg payload).outer = s.outer := by
  unfold State.deallocateBytes
  split
  · rfl
  · simp [State.makeFree, State.setHeader, State.writeFooter]

theorem release_chunks (step : Release) :
    (s.release cfg step).chunks = s.chunks := by
  have walk : ∀ fuel head (u : State),
      (State.drainWalk cfg fuel head u).chunks = u.chunks := by
    intro fuel
    induction fuel with
    | zero => exact fun _ _ => rfl
    | succ fuel ih =>
        intro head u
        unfold State.drainWalk
        split
        · rfl
        · exact (ih _ _).trans
            (State.chunks_of_outer (deallocateBytes_outer head))
  cases step with
  | direct payload => exact State.chunks_of_outer (deallocateBytes_outer payload)
  | remote payload => rfl
  | drain =>
      unfold State.release State.drainRemote
      dsimp only
      split
      · rfl
      · exact walk _ _ _

theorem releaseAll_chunks (plan : List Release) :
    (s.releaseAll cfg plan).chunks = s.chunks := by
  have folded : ∀ u : State,
      (plan.foldl (State.release cfg) u).chunks = u.chunks := by
    induction plan with
    | nil => exact fun _ => rfl
    | cons step plan ih =>
        exact fun u => (ih _).trans (release_chunks step)
  exact (release_chunks .drain).trans (folded s)

/-- A plan over payloads of allocated runs that are not parked frees exactly
these, besides what was parked before. -/
theorem releaseAll_ok {runs : Set Block} {parked : List Nat}
    {plan : List Release} (ok : RunnerOk cfg s runs parked)
    (nodup : (plan.filterMap Release.payload).Nodup)
    (planned : ∀ p ∈ plan.filterMap Release.payload,
      p ∉ parked ∧ ∃ run ∈ runs, run.addr + 16 = p) :
    RunnerOk cfg (s.releaseAll cfg plan)
      (withoutPayloads runs (plan.filterMap Release.payload ++ parked)) [] := by
  induction plan generalizing s runs parked with
  | nil =>
      rw [List.filterMap_nil, List.nil_append]
      exact (drainRemote_spec ok).2.2.ok
  | cons step plan ih =>
      have unfolded : s.releaseAll cfg (step :: plan) =
          (s.release cfg step).releaseAll cfg plan := rfl
      rw [unfolded]
      cases step with
      | direct payload =>
          obtain ⟨fresh, rest⟩ := List.nodup_cons.mp nodup
          obtain ⟨notParked, run, member, rfl⟩ := planned _ List.mem_cons_self
          have freed := ih (deallocateBytes_step ok member notParked).ok rest
            fun p later => by
              obtain ⟨apart, other, otherMember, rfl⟩ :=
                planned p (List.mem_cons_of_mem _ later)
              refine ⟨apart, other, ⟨otherMember, ?_⟩, rfl⟩
              rintro rfl
              exact fresh later
          rw [withoutPayloads_sdiff fun other otherMember sameAddr =>
            ok.eq_of_addr_eq otherMember member sameAddr] at freed
          exact freed
      | remote payload =>
          obtain ⟨fresh, rest⟩ := List.nodup_cons.mp nodup
          obtain ⟨notParked, run, member, rfl⟩ := planned _ List.mem_cons_self
          have freed := ih (remotePush_step ok member notParked).ok rest
            fun p later => by
              obtain ⟨apart, found⟩ := planned p (List.mem_cons_of_mem _ later)
              refine ⟨?_, found⟩
              rintro (_ | ⟨_, inParked⟩)
              · exact fresh later
              · exact apart inParked
          have same : withoutPayloads runs (plan.filterMap Release.payload ++
              (run.addr + 16) :: parked) =
              withoutPayloads runs ((Release.remote (run.addr + 16) ::
                plan).filterMap Release.payload ++ parked) := by
            ext other
            simp only [withoutPayloads, Set.mem_ofPred_eq, Release.payload,
              List.filterMap_cons, List.cons_append, List.mem_cons,
              List.mem_append]
            tauto
          rw [← same]
          exact freed
      | drain =>
          have freed := ih (drainRemote_spec ok).2.2.ok nodup fun p later => by
            obtain ⟨apart, run, member, rfl⟩ := planned p later
            exact ⟨List.not_mem_nil, run, ⟨member, apart⟩, rfl⟩
          have same : withoutPayloads (withoutPayloads runs parked)
              (plan.filterMap Release.payload ++ []) =
              withoutPayloads runs ((Release.drain ::
                plan).filterMap Release.payload ++ parked) := by
            ext other
            simp only [withoutPayloads, Set.mem_ofPred_eq, Release.payload,
              List.filterMap_cons, List.append_nil, List.mem_append]
            tauto
          rw [← same]
          exact freed

theorem deallocateAll_ok {runs : Set Block} {parked payloads : List Nat}
    (ok : RunnerOk cfg s runs parked) (nodup : payloads.Nodup)
    (held : ∀ p ∈ payloads, p ∉ parked ∧ ∃ run ∈ runs, run.addr + 16 = p) :
    RunnerOk cfg (s.deallocateAll cfg payloads) (withoutPayloads runs payloads)
      parked := by
  induction payloads generalizing s runs with
  | nil =>
      rw [withoutPayloads_nil]
      exact ok
  | cons p payloads ih =>
      obtain ⟨fresh, rest⟩ := List.nodup_cons.mp nodup
      obtain ⟨notParked, run, member, rfl⟩ := held _ List.mem_cons_self
      have freed := ih (deallocateBytes_step ok member notParked).ok rest
        fun q later => by
          obtain ⟨apart, other, otherMember, rfl⟩ :=
            held q (List.mem_cons_of_mem _ later)
          refine ⟨apart, other, ⟨otherMember, ?_⟩, rfl⟩
          rintro rfl
          exact fresh later
      rw [withoutPayloads_sdiff fun other otherMember sameAddr =>
        ok.eq_of_addr_eq otherMember member sameAddr] at freed
      exact freed

theorem deallocateAll_chunks (payloads : List Nat) :
    (s.deallocateAll cfg payloads).chunks = s.chunks := by
  induction payloads generalizing s with
  | nil => rfl
  | cons p payloads ih => exact ih.trans (release_chunks (.direct p))

/-- Releasing everything that the users hold leaves no run allocated. -/
theorem SessionOk.released {session : Session} (ok : SessionOk cfg session)
    {plan : List Release}
    (everything : (plan.filterMap Release.payload).Perm
      (session.live.map Allocation.payload)) :
    RunnerOk cfg (session.state.releaseAll cfg plan) ∅ [] := by
  obtain ⟨runs, parked, runner, held⟩ := ok
  have planned : ∀ p ∈ plan.filterMap Release.payload,
      p ∉ parked ∧ ∃ run ∈ runs, run.addr + 16 = p := by
    intro p listed
    obtain ⟨allocation, inLive, rfl⟩ :=
      List.mem_map.mp (everything.mem_iff.mp listed)
    obtain ⟨run, runMember, addrEq, apart⟩ := held.run ⟨allocation, inLive, rfl⟩
    exact ⟨apart, run, runMember, addrEq⟩
  have none : withoutPayloads runs
      (plan.filterMap Release.payload ++ parked) = ∅ := by
    refine Set.eq_empty_of_forall_notMem fun run ⟨inRuns, unlisted⟩ => ?_
    rw [List.mem_append, everything.mem_iff] at unlisted
    rcases held.accounted _ inRuns with inParked | ⟨allocation, inLive, addrEq⟩
    · exact unlisted (Or.inr inParked)
    · exact unlisted (Or.inl (List.mem_map.mpr ⟨allocation, inLive, addrEq⟩))
  have after := releaseAll_ok runner (everything.nodup_iff.mpr held.nodup) planned
  rwa [none] at after

/-- The layout of a session is determined by its chunks and its allocated runs;
so the order and the route of releases do not matter, and without allocated
runs every chunk is one free run. -/
theorem layout_determined (cfg : Config) :
    (∀ first second, (sessions cfg).Reachable first →
      (sessions cfg).Reachable second →
      (∀ chunk, chunk ∈ first.state.chunks ↔ chunk ∈ second.state.chunks) →
      (∀ addr size,
        first.state.Allocated addr size ↔ second.state.Allocated addr size) →
      SameLayout first.state second.state) ∧
    (∀ session, (sessions cfg).Reachable session → ∀ payloads payloads',
      payloads.Nodup → (∀ p ∈ payloads, session.Holds p) →
      payloads.Perm payloads' →
      SameLayout (session.state.deallocateAll cfg payloads)
        (session.state.deallocateAll cfg payloads')) ∧
    (∀ session, (sessions cfg).Reachable session → ∀ plan plan',
      (plan.filterMap Release.payload).Nodup →
      (∀ p ∈ plan.filterMap Release.payload, session.Holds p) →
      (plan.filterMap Release.payload).Perm (plan'.filterMap Release.payload) →
      SameLayout (session.state.releaseAll cfg plan)
        (session.state.releaseAll cfg plan')) ∧
    (∀ session, (sessions cfg).Reachable session →
      (∀ addr size, ¬ session.state.Allocated addr size) →
      ∀ chunk ∈ session.state.chunks, session.state.runsIn chunk =
        [⟨chunk.first, chunk.bytes - epilogueSize, .free⟩]) ∧
    ∀ session, (sessions cfg).Reachable session → ∀ plan,
      (plan.filterMap Release.payload).Perm
        (session.live.map Allocation.payload) →
      ∀ chunk ∈ session.state.chunks,
        (session.state.releaseAll cfg plan).runsIn chunk =
          [⟨chunk.first, chunk.bytes - epilogueSize, .free⟩] := by
  refine ⟨fun first second firstReachable secondReachable chunks allocated => ?_,
    fun session reachable payloads payloads' nodup held same => ?_,
    fun session reachable plan plan' nodup held same => ?_,
    fun session reachable empty chunk member => ?_,
    fun session reachable plan everything chunk member => ?_⟩
  · obtain ⟨_, _, firstOk, _⟩ :=
      (sessionOk_inductive cfg).reachable firstReachable
    obtain ⟨_, _, secondOk, _⟩ :=
      (sessionOk_inductive cfg).reachable secondReachable
    obtain ⟨_, heap, _⟩ := firstOk.heap
    obtain ⟨_, other, _⟩ := secondOk.heap
    exact sameLayout heap other chunks allocated
  · obtain ⟨runs, parked, ok, sessionHeld⟩ :=
      (sessionOk_inductive cfg).reachable reachable
    have unparked : ∀ p ∈ payloads,
        p ∉ parked ∧ ∃ run ∈ runs, run.addr + 16 = p := by
      intro p listed
      obtain ⟨run, runMember, addrEq, apart⟩ := sessionHeld.run (held p listed)
      exact ⟨apart, run, runMember, addrEq⟩
    obtain ⟨_, heap, used⟩ := (deallocateAll_ok ok nodup unparked).heap
    obtain ⟨_, other, otherUsed⟩ := (deallocateAll_ok ok (same.nodup_iff.mp nodup)
      fun p listed => unparked p (same.mem_iff.mpr listed)).heap
    refine sameLayout heap other (fun chunk => ?_) fun addr size => ?_
    · rw [deallocateAll_chunks, deallocateAll_chunks]
    · rw [heap.allocated_iff, other.allocated_iff, used, otherUsed]
      simp only [withoutPayloads, Set.mem_ofPred_eq, same.mem_iff]
  · obtain ⟨runs, parked, ok, sessionHeld⟩ :=
      (sessionOk_inductive cfg).reachable reachable
    have planned : ∀ p ∈ plan.filterMap Release.payload,
        p ∉ parked ∧ ∃ run ∈ runs, run.addr + 16 = p := by
      intro p listed
      obtain ⟨run, runMember, addrEq, apart⟩ := sessionHeld.run (held p listed)
      exact ⟨apart, run, runMember, addrEq⟩
    obtain ⟨_, heap, used⟩ := (releaseAll_ok ok nodup planned).heap
    obtain ⟨_, other, otherUsed⟩ := (releaseAll_ok ok (same.nodup_iff.mp nodup)
      fun p listed => planned p (same.mem_iff.mpr listed)).heap
    refine sameLayout heap other (fun chunk => ?_) fun addr size => ?_
    · rw [releaseAll_chunks, releaseAll_chunks]
    · rw [heap.allocated_iff, other.allocated_iff, used, otherUsed]
      simp only [withoutPayloads, Set.mem_ofPred_eq, List.mem_append,
        same.mem_iff]
  · obtain ⟨_, _, ok, _⟩ := (sessionOk_inductive cfg).reachable reachable
    obtain ⟨_, heap, _⟩ := ok.heap
    exact runsIn_of_unallocated heap empty member
  · have ok := (sessionOk_inductive cfg).reachable reachable
    obtain ⟨_, heap, used⟩ := (ok.released everything).heap
    refine runsIn_of_unallocated heap (fun addr size allocated => ?_)
      (by rwa [releaseAll_chunks])
    rw [heap.allocated_iff, used] at allocated
    exact allocated

/-- Freeing the two payloads directly, or parking them in the other order and
draining. -/
theorem sampleSession_release_orders :
    SameLayout
      (sampleSession.state.releaseAll sampleConfig
        [.direct 4112, .direct 4160])
      (sampleSession.state.releaseAll sampleConfig
        [.remote 4160, .remote 4112, .drain]) := by
  refine (layout_determined sampleConfig).2.2.1 sampleSession
    sampleSession_reachable _ _ (by decide) (fun p listed => ?_) (by decide)
  have cases : p = 4112 ∨ p = 4160 := by simpa [Release.payload] using listed
  rcases cases with rfl | rfl
  · exact ⟨⟨4112, 24, 0⟩, by decide +kernel, rfl⟩
  · exact ⟨⟨4160, 40, 208⟩, by decide +kernel, rfl⟩

end Runner

end Allocazam
