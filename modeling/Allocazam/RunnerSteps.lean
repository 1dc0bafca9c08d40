import Allocazam.RunnerAllocate

/-!
# Steps of the other operations

Deallocation, expansion, remote pushes and the writes of the users as steps of
a legal runner, and the three constructors.
-/

namespace Allocazam

namespace Runner

variable {cfg : Config} {s t : State} {runs : Set Block} {parked : List Nat}

theorem deallocateBytes_step {run : Block} (ok : RunnerOk cfg s runs parked)
    (member : run ∈ runs) (notParked : run.addr + 16 ∉ parked) :
    RunnerStep cfg s (s.deallocateBytes cfg (run.addr + 16)) (runs \ {run})
      (runs \ {run}) parked := by
  have keptApart : ∀ other ∈ runs, other.addr + 16 ∈ parked →
      other ∈ runs \ {run} := by
    rintro other otherMember inParked
    refine ⟨otherMember, ?_⟩
    rintro rfl
    exact notParked inParked
  obtain ⟨blocks, heap, rfl⟩ := ok.heap
  obtain ⟨step, outer⟩ := deallocateBytes_spec heap member
  refine ok.heapStep step outer (ok.stack_kept step.toEffect
    (State.remoteHead_of_outer outer) keptApart) fun p inParked => ?_
  obtain ⟨other, otherMember, rfl⟩ := ok.parkedRuns p inParked
  exact ⟨other, keptApart other otherMember inParked, rfl⟩

theorem expand_step {run : Block} {minNewBytes : Nat}
    (ok : RunnerOk cfg s runs parked) (member : run ∈ runs)
    (word : minNewBytes < 2 ^ 64) :
    ∃ granted, run.size ≤ granted ∧
      (s.expand cfg (run.addr + 16) minNewBytes).2 = granted - 16 ∧
      RunnerStep cfg s (s.expand cfg (run.addr + 16) minNewBytes).1 runs
        (insert ⟨run.addr, granted, .used⟩ (runs \ {run})) parked := by
  obtain ⟨blocks, heap, rfl⟩ := ok.heap
  obtain ⟨granted, grows, reported, step, outer⟩ :=
    expand_spec heap member word
  refine ⟨granted, grows, reported, ok.heapStep step outer
    (ok.stack_kept step.toEffect (State.remoteHead_of_outer outer)
      fun other otherMember _ => otherMember) fun p inParked => ?_⟩
  obtain ⟨other, otherMember, rfl⟩ := ok.parkedRuns p inParked
  by_cases same : other = run
  · exact ⟨_, Or.inl rfl, by rw [same]⟩
  · exact ⟨other, Or.inr ⟨otherMember, same⟩, rfl⟩

section Payload

variable {blocks : List Block} (heap : HeapOk cfg s blocks) {run : Block}
  (member : run ∈ usedRuns blocks) {word : Nat} (value : Nat)
  (lower : run.addr + 16 ≤ word) (upper : word < run.stop)

include heap member lower upper

/-- Writing to the payload of an allocated run keeps the index. -/
theorem FreeIndex.write {binned : Nat → List Nat}
    (index : FreeIndex s binned (freeRuns blocks)) :
    FreeIndex (s.write word value) binned (freeRuns blocks) := by
  refine index.congr rfl rfl fun other isLink => Function.update_of_ne ?_ _ _
  rintro rfl
  exact heap.not_privateWord member (by omega) upper
    (heap.privateWord_of_linkWord isLink)

/-- Writing to the payload of an allocated run keeps the heap. -/
theorem HeapOk.write : HeapOk cfg (s.write word value) blocks := by
  have holds : run.Holds word := ⟨by omega, upper⟩
  obtain ⟨binned, index⟩ := heap.indexed
  refine ⟨heap.layout, heap.tagged.congr fun block blockMember other isTag => ?_,
    binned, index.write heap member value lower upper⟩
  refine Function.update_of_ne ?_ _ _
  rintro rfl
  have large := (heap.layout.size_spec blockMember).2
  have stopEq : block.stop = block.addr + block.size := rfl
  have same := heap.layout.eq_of_holds blockMember member.1
    (by unfold Block.Holds; rcases isTag.place with rfl | rfl | rfl <;> omega)
    holds
  subst same
  rcases isTag with rfl | ⟨_, rfl⟩ | ⟨free, rfl⟩
  · omega
  · omega
  · exact absurd (member.2.symm.trans free) (by decide)

end Payload

section Write

variable {run : Block} (ok : RunnerOk cfg s runs parked) (member : run ∈ runs)
  (notParked : run.addr + 16 ∉ parked) {word : Nat} (value : Nat)
  (lower : run.addr + 16 ≤ word) (upper : word < run.stop)

include ok member notParked lower upper

/-- A write of a user to the payload of a run that is not parked. -/
theorem write_step :
    RunnerStep cfg s (s.write word value) (runs \ {run}) runs parked := by
  obtain ⟨blocks, heap, rfl⟩ := ok.heap
  have holds : run.Holds word := ⟨by omega, upper⟩
  have elsewhere : ∀ other ∈ usedRuns blocks, other ≠ run → ∀ place,
      other.addr < place → place < other.stop → place ≠ word := by
    rintro other otherMember different place above below rfl
    exact different (heap.layout.eq_of_holds otherMember.1 member.1
      ⟨above.le, below⟩ holds)
  refine ⟨⟨fun other inRest place above below => ?_, fun place notIn => ?_,
    fun place behind => ?_, fun chunk chunkMember => chunkMember⟩, {
      heap := ⟨blocks, heap.write member value lower upper, rfl⟩
      stack := ok.stack.congr fun p inParked => ?_
      parkedRuns := ok.parkedRuns
      growth := ok.growth
      deferred := ok.deferred }⟩
  · exact Function.update_of_ne
      (elsewhere other inRest.1 inRest.2 place above below) _ _
  · refine Function.update_of_ne ?_ _ _
    rintro rfl
    exact notIn (heap.inChunks_of_holds member.1 holds)
  · refine Function.update_of_ne ?_ _ _
    rintro rfl
    have fence := (heap.fence_of_behind behind member.1 holds).1
    rw [member.2] at fence
    cases fence
  · obtain ⟨other, otherMember, rfl⟩ := ok.parkedRuns p inParked
    have large := (heap.layout.sizes other otherMember.1
      (by rw [otherMember.2]; decide)).1
    have stopEq : other.stop = other.addr + other.size := rfl
    refine Function.update_of_ne (elsewhere other otherMember ?_ _ (by omega)
      (by omega)) _ _
    rintro rfl
    exact notParked inParked

end Write

theorem remotePush_step {run : Block} (ok : RunnerOk cfg s runs parked)
    (member : run ∈ runs) (notParked : run.addr + 16 ∉ parked) :
    RunnerStep cfg s (s.remotePush (run.addr + 16)) (runs \ {run}) runs
      ((run.addr + 16) :: parked) := by
  have large : 48 ≤ run.size := by
    obtain ⟨blocks, heap, rfl⟩ := ok.heap
    exact (heap.layout.sizes run member.1 (by rw [member.2]; decide)).1
  have written := write_step ok member notParked s.remoteHead le_rfl
    (by unfold Block.stop; omega)
  obtain ⟨blocks, heap, same⟩ := written.ok.heap
  refine ⟨written.toEffect.congr rfl rfl rfl rfl, {
    heap := ⟨blocks, heap.congr rfl rfl rfl rfl, same⟩
    stack := ?_
    parkedRuns := ?_
    growth := ok.growth
    deferred := ok.deferred }⟩
  · exact ok.stack.push (by omega) notParked
  · intro p inParked
    rcases List.mem_cons.mp inParked with rfl | later
    · exact ⟨run, member, rfl⟩
    · exact ok.parkedRuns p later

theorem blank_ok {mem : Nat → Nat} {nextGrowth deferredBytes : Nat}
    (growth : nextGrowth < 2 ^ 64) (deferred : deferredBytes < 2 ^ 64) :
    RunnerOk cfg (State.blank mem nextGrowth deferredBytes) ∅ [] where
  heap := by
    refine ⟨[], ⟨⟨⟨by simp [State.blank], by simp [State.blank],
      by simp [State.blank], by simp [State.blank], List.Pairwise.nil⟩,
      Fenced.nil, by simp, trivial⟩, trivial, fun _ => [], ?_⟩,
      by ext; simp [mem_usedRuns]⟩
    exact {
      deque := fun idx _ => rfl
      mem_iff := fun idx _ h => by simp [mem_freeRuns]
      maskBound := fun word => by simp [State.blank]
      maskBit := fun idx _ => by simp [State.binBit, State.blank] }
  stack := rfl
  parkedRuns := by simp
  growth := growth
  deferred := deferred

theorem construct_ok {os : Os} {mem : Nat → Nat} {initialBytes : Nat}
    (word : initialBytes < 2 ^ 64)
    (result : State.construct cfg os mem initialBytes = .ok s) :
    RunnerOk cfg s ∅ [] := by
  unfold State.construct at result
  have blank : RunnerOk cfg (State.blank mem (max initialBytes 65536) 0) ∅ [] :=
    blank_ok (by omega) (by omega)
  obtain ⟨added, bound⟩ := addOwnedChunk_step blank word
  generalize State.addOwnedChunk cfg _ os initialBytes = outcome at *
  obtain ⟨u, outcome⟩ := outcome
  cases outcome with
  | error exn => cases result
  | ok chunkBytes =>
      obtain rfl := Except.ok.inj result
      exact (added.ok.resize (t := { u with nextGrowth := chunkBytes }) rfl rfl
        rfl rfl rfl (bound chunkBytes rfl) added.ok.deferred).ok

theorem constructLazy_ok {mem : Nat → Nat} {initialBytes : Nat}
    (word : initialBytes < 2 ^ 64) :
    RunnerOk cfg (State.constructLazy mem initialBytes) ∅ [] :=
  blank_ok (by omega) (by omega)

/-- The chunk of a runner on a span: the part of the span between the aligned
ends. -/
theorem constructExternal_spec (cfg : Config) {mem : Nat → Nat} {data size : Nat}
    (nonnull : 0 < data) (bounded : data + size ≤ 2 ^ 64)
    (result : State.constructExternal mem data size = .ok s) :
    RunnerOk cfg s ∅ [] ∧
      (∀ word, ¬ InChunks s word → s.mem word = mem word) ∧
      ∃ chunk, s.chunks = [chunk] ∧ chunk.first = (data + 15) / 16 * 16 ∧
        chunk.bytes = (size - (chunk.first - data)) / 16 * 16 ∧
        minChunkBytes ≤ chunk.bytes ∧
        chunk.first + chunk.bytes ≤ data + size ∧
        ∀ word, ¬ (chunk.first ≤ word ∧ word + 8 ≤ chunk.first + chunk.bytes) →
          s.mem word = mem word := by
  have blank : RunnerOk cfg (State.blank mem 0 0) ∅ [] :=
    blank_ok (by decide) (by decide)
  obtain ⟨blocks, heap, empty⟩ := blank.heap
  unfold State.constructExternal State.addExternalChunk at result
  simp only [runAlignment_eq, minChunkBytes_eq, Nat.add_one_sub_one] at result
  split at result
  · cases result
  generalize alignedEq : (data + 15) / 16 * 16 = aligned at result ⊢
  split at result
  · cases result
  rename_i room
  split at result
  · cases result
  rename_i large
  obtain rfl := Except.ok.inj result
  have fresh : Fresh (State.blank mem 0 0).chunks
      ⟨aligned, size - (aligned - data) - (size - (aligned - data)) % 16, 0,
        0⟩ :=
    { aligned := by simp only; omega
      positive := by simp only; omega
      sizeAligned := by simp only; omega
      large := by simp only; omega
      bounded := by simp only; omega
      apart := by simp [State.blank] }
  generalize chunkEq : (⟨aligned,
    size - (aligned - data) - (size - (aligned - data)) % 16, 0, 0⟩ :
      ChunkNode) = chunk at fresh
  obtain ⟨step, outer⟩ := initializeFreeRun_step heap fresh
  have frame := (initializeFreeRun_spec heap fresh).2.1
  have notLink : ∀ word, ¬ LinkWord (freeRuns blocks) word := by
    rintro word ⟨block, member, _⟩
    obtain ⟨_, nowhere, _⟩ := heap.layout.mem_chunk member.1
    exact absurd nowhere (by simp [State.blank])
  generalize State.initializeFreeRun _ chunk = formatted at *
  have growth : formatted.nextGrowth = 0 :=
    congrArg (fun members => members.2.1) outer
  have deferred : formatted.deferredBytes = 0 :=
    congrArg (fun members => members.2.2.1) outer
  have chunks : formatted.chunks = [chunk] :=
    congrArg (fun members => members.1) outer
  refine ⟨?_, step.outside, chunk, chunks, ?_⟩
  · exact {
      heap := by rw [← empty]; exact step.heap
      stack := by
        have head : formatted.remoteHead = 0 :=
          congrArg (fun members => members.2.2.2) outer
        exact head
      parkedRuns := by simp
      growth := by rw [growth]; decide
      deferred := by rw [deferred]; decide }
  · rw [← chunkEq, minChunkBytes_eq]
    dsimp only
    refine ⟨rfl, by omega, by omega, by omega, fun word outside => ?_⟩
    exact frame word (by rw [← chunkEq]; exact outside) (notLink word)

theorem constructExternal_ok {mem : Nat → Nat} {data size : Nat}
    (nonnull : 0 < data) (bounded : data + size ≤ 2 ^ 64)
    (result : State.constructExternal mem data size = .ok s) :
    RunnerOk cfg s ∅ [] :=
  (constructExternal_spec cfg nonnull bounded result).1

end Runner

end Allocazam
