import Allocazam.RunnerDeterminacy

/-!
# The territory of a runner

A runner owns the memory of its chunks.  Its invariant reads nothing else, its
operations write nowhere else, and only an allocation acquires further chunks,
from the OS.
-/

namespace Allocazam

namespace Runner

variable {cfg : Config} {s t : State} {os : Os} {runs : Set Block}
  {parked : List Nat}

def Allocator.footprint (members : Allocator) : Set Nat :=
  {addr | ∃ chunk ∈ members.chunks,
    chunk.first ≤ addr ∧ addr < chunk.first + chunk.bytes}

/-- `owns_run` tells whether an address lies in a chunk. -/
theorem ownsRun_iff {p : Nat} :
    s.ownsRun p = true ↔ p ≠ 0 ∧ p ∈ s.footprint := by
  unfold State.ownsRun Allocator.footprint
  simp

/-- What happens outside its chunks does not concern a runner. -/
theorem RunnerOk.frame (ok : RunnerOk cfg s runs parked) {mem : Nat → Nat}
    (agrees : ∀ addr ∈ s.footprint, mem addr = s.mem addr) :
    RunnerOk cfg { s with mem } runs parked where
  heap := by
    obtain ⟨blocks, heap, same⟩ := ok.heap
    obtain ⟨binned, index⟩ := heap.indexed
    refine ⟨blocks, ⟨heap.layout, ?_, binned, ?_⟩, same⟩
    · apply heap.tagged.congr
      intro block member word isTag
      apply agrees
      have size := (heap.layout.size_spec member).2
      have stopEq : block.stop = block.addr + block.size := rfl
      apply heap.inChunks_of_holds member
      rcases isTag.place with rfl | rfl | rfl <;>
        exact ⟨by omega, by omega⟩
    · refine index.congr rfl rfl ?_
      intro word isLink
      apply agrees
      exact heap.inChunks_of_privateWord (heap.privateWord_of_linkWord isLink)
  stack := by
    apply ok.stack.congr
    intro p listed
    obtain ⟨run, member, rfl⟩ := ok.parkedRuns p listed
    have large := ok.large member
    obtain ⟨blocks, heap, rfl⟩ := ok.heap
    apply agrees
    exact heap.inChunks_of_holds member.1
      ⟨by omega, by unfold Block.stop; omega⟩
  parkedRuns := ok.parkedRuns
  growth := ok.growth
  deferred := ok.deferred

/-- Every chunk of `t` is one of `s` or was granted. -/
def Acquires (os : Os) (s t : State) : Prop :=
  ∀ chunk ∈ t.chunks, chunk ∈ s.chunks ∨
    ∃ inUse, os.grant inUse chunk.bytes = some chunk.first

theorem Acquires.of_chunks (same : t.chunks = s.chunks) : Acquires os s t := by
  intro chunk member
  rw [same] at member
  exact Or.inl member

theorem Acquires.trans {r : State} (first : Acquires os s t)
    (second : Acquires os t r) : Acquires os s r := by
  intro chunk member
  rcases second chunk member with old | granted
  · exact first chunk old
  · exact Or.inr granted

theorem findFit_chunks (needed scanCount : Nat) :
    (s.findFit cfg needed scanCount).1.chunks = s.chunks :=
  State.chunks_of_outer (findFit_same needed scanCount).2.2.2

theorem drainRemote_chunks : (s.drainRemote cfg).1.chunks = s.chunks :=
  release_chunks .drain

theorem allocateFromFreeRun_chunks (h needed : Nat) :
    (s.allocateFromFreeRun cfg h needed).1.chunks = s.chunks := by
  apply State.chunks_of_outer
  unfold State.allocateFromFreeRun
  dsimp only
  split <;> simp [State.makeRemainder, State.takeWhole, State.setHeader,
    State.writeFooter, State.addLiveBytes]

theorem expand_chunks (p minNewBytes : Nat) :
    (s.expand cfg p minNewBytes).1.chunks = s.chunks := by
  apply State.chunks_of_outer
  unfold State.expand
  dsimp only
  split
  · rfl
  split
  · rfl
  cases normalizedRunBytesForPayload minNewBytes with
  | none => rfl
  | some needed =>
      dsimp only
      split
      · rfl
      cases checkedAdd (s.runSize (headerFromPayload p))
          (s.runSize (s.nextRun (headerFromPayload p))) with
      | none => rfl
      | some combined =>
          dsimp only
          split
          · rfl
          unfold State.expandInto
          dsimp only
          split <;> split <;> simp [State.makeRemainder, State.takeWhole,
            State.setHeader, State.writeFooter, State.addLiveBytes]

/-- Memory for a chunk is granted by the OS. -/
theorem allocateOwnedMemory_granted {inUse : List ChunkNode} {bytes alignment : Nat}
    {memory : Nat × Nat}
    (obtained : State.allocateOwnedMemory cfg os inUse bytes alignment =
      some memory) :
    os.grant inUse memory.2 = some memory.1 ∧ bytes ≤ memory.2 := by
  unfold State.allocateOwnedMemory at obtained
  split at obtained
  · cases obtained
  split at obtained
  · split at obtained
    · cases obtained
    obtain ⟨mappingBytes, rounded, base, grants, rfl⟩ :=
      by simpa [Option.bind_eq_some_iff] using obtained
    exact ⟨grants,
      (checkedRoundToMultipleOf_eq_some (by decide) rounded).1⟩
  · obtain ⟨base, grants, rfl⟩ :=
      by simpa [Option.bind_eq_some_iff] using obtained
    exact ⟨grants, le_rfl⟩

theorem addOwnedChunk_acquires (bytes : Nat) :
    Acquires os s (s.addOwnedChunk cfg os bytes).1 := by
  unfold State.addOwnedChunk
  cases State.ownedChunkBytesFor cfg bytes with
  | error exn => exact .of_chunks rfl
  | ok chunkBytes =>
      dsimp only
      cases obtained : State.allocateOwnedMemory cfg os s.chunks chunkBytes
          runAlignment with
      | none => exact .of_chunks rfl
      | some memory =>
          have granted := (allocateOwnedMemory_granted obtained).1
          intro chunk member
          have outer : (State.initializeFreeRun
              { s with chunks := ⟨memory.1, memory.2, memory.1, memory.2⟩ ::
                s.chunks } ⟨memory.1, memory.2, memory.1, memory.2⟩).chunks =
              ⟨memory.1, memory.2, memory.1, memory.2⟩ :: s.chunks := by
            apply State.chunks_of_outer (s := { s with
              chunks := ⟨memory.1, memory.2, memory.1, memory.2⟩ :: s.chunks })
            simp [State.initializeFreeRun, State.setHeader, State.writeFooter]
          dsimp only at member
          rw [outer] at member
          rcases List.mem_cons.mp member with rfl | old
          · exact Or.inr ⟨s.chunks, granted⟩
          · exact Or.inl old

theorem findOrDrain_chunks (needed : Nat) :
    (s.findOrDrain cfg needed).1.chunks = s.chunks := by
  have searched : (s.findFit cfg needed 0).1.chunks = s.chunks :=
    findFit_chunks needed 0
  unfold State.findOrDrain
  generalize s.findFit cfg needed 0 = found at *
  obtain ⟨u, h, count⟩ := found
  dsimp only at searched ⊢
  split
  · have drained : (u.drainRemote cfg).1.chunks = u.chunks := drainRemote_chunks
    generalize u.drainRemote cfg = outcome at *
    obtain ⟨v, reclaimed⟩ := outcome
    cases reclaimed with
    | true => exact (findFit_chunks needed count).trans (drained.trans searched)
    | false => exact drained.trans searched
  · exact searched

theorem findOrDefer_acquires (needed : Nat) (found : State × Nat × Nat) :
    Acquires os found.1 (State.findOrDefer cfg os needed found).1 := by
  obtain ⟨u, h, count⟩ := found
  unfold State.findOrDefer
  dsimp only
  split
  · have added : Acquires os u (u.addOwnedChunk cfg os u.deferredBytes).1 :=
      addOwnedChunk_acquires u.deferredBytes
    generalize u.addOwnedChunk cfg os u.deferredBytes = outcome at *
    obtain ⟨v, outcome⟩ := outcome
    cases outcome with
    | error exn => exact added
    | ok chunkBytes => exact added.trans (.of_chunks (findFit_chunks needed count))
  · exact .of_chunks rfl

theorem growFor_acquires (needed : Nat) :
    Acquires os s (s.growFor cfg os needed).1 := by
  unfold State.growFor
  dsimp only
  have recorded : ∀ update, Acquires os s (s.record cfg update) :=
    fun update => .of_chunks (by simp)
  cases checkedAdd needed minChunkBytes with
  | none => exact recorded _
  | some overhead =>
      apply (recorded fun stats =>
        { stats with growCalls := wrapAdd stats.growCalls 1 }).trans
      generalize s.record cfg (fun stats =>
        { stats with growCalls := wrapAdd stats.growCalls 1 }) = u
      dsimp only
      have added : Acquires os u
          (u.addOwnedChunk cfg os (max u.nextGrowth overhead)).1 :=
        addOwnedChunk_acquires (max u.nextGrowth overhead)
      generalize u.addOwnedChunk cfg os (max u.nextGrowth overhead) = outcome at *
      obtain ⟨v, outcome⟩ := outcome
      cases outcome with
      | error exn => exact added
      | ok chunkBytes => exact added

theorem findOrGrow_acquires (needed h scanCount : Nat) :
    Acquires os s (s.findOrGrow cfg os needed h scanCount).1 := by
  unfold State.findOrGrow
  split
  · have grown : Acquires os s (s.growFor cfg os needed).1 :=
      growFor_acquires needed
    generalize s.growFor cfg os needed = outcome at *
    obtain ⟨u, outcome⟩ := outcome
    cases outcome with
    | error exn => exact grown
    | ok done =>
        exact grown.trans (.of_chunks (findFit_chunks needed scanCount))
  · exact .of_chunks rfl

theorem finishAllocate_chunks (h needed : Nat) :
    (s.finishAllocate cfg h needed).1.chunks = s.chunks := by
  unfold State.finishAllocate State.failAllocate
  split
  · simp
  · have carved : (s.allocateFromFreeRun cfg h needed).1.chunks = s.chunks :=
      allocateFromFreeRun_chunks h needed
    generalize s.allocateFromFreeRun cfg h needed = outcome at *
    dsimp only
    rw [record_chunks]
    exact carved

theorem allocateBytes_acquires (bytes alignment : Nat) :
    Acquires os s (s.allocateBytes cfg os bytes alignment).1 := by
  unfold State.allocateBytes
  dsimp only
  split
  · exact .of_chunks rfl
  generalize (if bytes = 0 then 1 else bytes) = request
  have recorded : Acquires os s (s.record cfg fun stats =>
      { stats with
        allocateCalls := wrapAdd stats.allocateCalls 1
        requestedBytes := wrapAdd stats.requestedBytes request }) :=
    .of_chunks (by simp)
  apply recorded.trans
  generalize s.record cfg (fun stats =>
    { stats with
      allocateCalls := wrapAdd stats.allocateCalls 1
      requestedBytes := wrapAdd stats.requestedBytes request }) = u
  cases normalizedRunBytesForPayload request with
  | none => exact .of_chunks (by simp [State.failAllocate])
  | some needed =>
      dsimp only
      apply Acquires.trans (.of_chunks (findOrDrain_chunks needed))
      generalize u.findOrDrain cfg needed = found
      unfold State.resumeAllocate
      have deferred : Acquires os found.1
          (State.findOrDefer cfg os needed found).1 :=
        findOrDefer_acquires needed found
      generalize State.findOrDefer cfg os needed found = stage at *
      obtain ⟨v, outcome⟩ := stage
      cases outcome with
      | error exn => exact deferred
      | ok pair =>
          apply deferred.trans
          dsimp only
          have grown : Acquires os v
              (v.findOrGrow cfg os needed pair.1 pair.2).1 :=
            findOrGrow_acquires needed pair.1 pair.2
          generalize v.findOrGrow cfg os needed pair.1 pair.2 = stage at *
          obtain ⟨w, outcome⟩ := stage
          cases outcome with
          | error exn => exact grown
          | ok h => exact grown.trans (.of_chunks (finishAllocate_chunks h needed))

theorem construct_footprint {mem : Nat → Nat} {initialBytes : Nat}
    (word : initialBytes < 2 ^ 64)
    (built : State.construct cfg os mem initialBytes = .ok s) :
    (∀ chunk ∈ s.chunks, ∃ inUse,
        os.grant inUse chunk.bytes = some chunk.first) ∧
      ∀ addr ∉ s.footprint, s.mem addr = mem addr := by
  unfold State.construct at built
  have blank : RunnerOk cfg (State.blank mem (max initialBytes 65536) 0) ∅ [] :=
    blank_ok (by omega) (by omega)
  have acquires : Acquires os (State.blank mem (max initialBytes 65536) 0)
      ((State.blank mem (max initialBytes 65536) 0).addOwnedChunk cfg os
        initialBytes).1 := addOwnedChunk_acquires initialBytes
  have added : RunnerStep cfg (State.blank mem (max initialBytes 65536) 0)
      ((State.blank mem (max initialBytes 65536) 0).addOwnedChunk cfg os
        initialBytes).1 ∅ ∅ [] := (addOwnedChunk_step blank word).1
  generalize State.addOwnedChunk cfg _ os initialBytes = outcome at *
  obtain ⟨u, outcome⟩ := outcome
  cases outcome with
  | error exn => cases built
  | ok chunkBytes =>
      obtain rfl := Except.ok.inj built
      refine ⟨fun chunk member => ?_, fun addr foreign => added.outside addr foreign⟩
      rcases acquires chunk member with old | granted
      · cases old
      · exact granted

def Os.Avoids (os : Os) (inUse : Set Nat) : Prop :=
  ∀ chunks bytes base, os.grant chunks bytes = some base →
    ∀ addr, base ≤ addr → addr < base + bytes → addr ∉ inUse

/-- The OS a call may acquire chunks from grants no address of the given set. -/
def Operation.Avoids (inUse : Set Nat) : Operation → Prop
  | .allocateBytes os _ _ => os.Avoids inUse
  | _ => True

theorem Acquires.footprint (acquires : Acquires os s t) {inUse : Set Nat}
    (avoids : os.Avoids inUse) {addr : Nat} (owned : addr ∈ t.footprint) :
    addr ∈ s.footprint ∨ addr ∉ inUse := by
  obtain ⟨chunk, member, lower, upper⟩ := owned
  rcases acquires chunk member with old | ⟨chunks, granted⟩
  · exact Or.inl ⟨chunk, old, lower, upper⟩
  · exact Or.inr (avoids chunks chunk.bytes chunk.first granted addr lower upper)

theorem perform_footprint {session : Session} {operation : Operation}
    {inUse : Set Nat} (avoids : operation.Avoids inUse) {addr : Nat}
    (owned : addr ∈ (session.perform cfg operation).state.footprint) :
    addr ∈ session.state.footprint ∨ addr ∉ inUse := by
  cases operation with
  | allocateBytes os bytes alignment =>
      have acquires : Acquires os session.state
          (session.state.allocateBytes cfg os bytes alignment).1 :=
        allocateBytes_acquires bytes alignment
      apply acquires.footprint avoids
      unfold Session.perform at owned
      dsimp only at owned
      split at owned <;> rename_i result <;> rw [result]
      · exact owned
      · exact owned
  | deallocateBytes payload =>
      have same : (session.state.deallocateBytes cfg payload).chunks =
          session.state.chunks :=
        State.chunks_of_outer (deallocateBytes_outer payload)
      have acquires : Acquires refusing _ _ := .of_chunks same
      exact acquires.footprint (by simp [Os.Avoids, refusing]) owned
  | expand payload minNewBytes =>
      have acquires : Acquires refusing session.state
          (session.state.expand cfg payload minNewBytes).1 :=
        .of_chunks (expand_chunks payload minNewBytes)
      exact acquires.footprint (by simp [Os.Avoids, refusing]) owned
  | remotePush payload => exact Or.inl owned

section SessionOk

variable {session : Session} {operation : Operation} {addr : Nat}
  (ok : SessionOk cfg session)

include ok

/-- What happens outside its chunks does not concern a session. -/
theorem SessionOk.framed {mem : Nat → Nat}
    (agrees : ∀ addr ∈ session.state.footprint,
      mem addr = session.state.mem addr) :
    SessionOk cfg ⟨{ session.state with mem }, session.live⟩ := by
  obtain ⟨runs, parked, runnerOk, held⟩ := ok
  exact ⟨runs, parked, runnerOk.frame agrees, held⟩

theorem SessionOk.perform (allowed : session.Allows operation) :
    SessionOk cfg (session.perform cfg operation) :=
  (sessionOk_inductive cfg).step _ _ ok (.call operation allowed)

/-- A call writes to the chunks it leaves the runner with. -/
theorem SessionOk.perform_writes (allowed : session.Allows operation)
    (foreign : addr ∉ (session.perform cfg operation).state.footprint) :
    (session.perform cfg operation).state.mem addr = session.state.mem addr := by
  obtain ⟨runs, parked, runnerOk, held⟩ := ok
  obtain ⟨_, _, _, step, _⟩ := perform_step runnerOk held allowed
  exact step.outside addr foreign

/-- A call leaves what lies behind the headers of the epilogues. -/
theorem SessionOk.perform_ends (allowed : session.Allows operation)
    (behind : BehindEpilogue session.state addr) :
    (session.perform cfg operation).state.mem addr = session.state.mem addr := by
  obtain ⟨runs, parked, runnerOk, held⟩ := ok
  obtain ⟨_, _, _, step, _⟩ := perform_step runnerOk held allowed
  exact step.ends addr behind

/-- The payload of a held allocation and its room. -/
theorem SessionOk.payload_spec {allocation : Allocation}
    (member : allocation ∈ session.live) :
    32 ≤ session.state.payloadBytes allocation.payload ∧
      (allocation.requested + 15) / 16 * 16 ≤
        session.state.payloadBytes allocation.payload ∧
      16 < allocation.payload ∧ 16 ∣ allocation.payload ∧
      session.state.mem (allocation.payload - 8) = cfg.self ∧
      ∀ word, allocation.payload - 16 ≤ word → word < session.stop allocation →
        word ∈ session.state.footprint := by
  obtain ⟨runs, parked, runnerOk, held⟩ := ok
  obtain ⟨covers, _⟩ := payload_covers runnerOk held member
  obtain ⟨run, runMember, addrEq, _, large, bytes⟩ :=
    held.run_spec runnerOk ⟨allocation, member, rfl⟩
  obtain ⟨blocks, heap, rfl⟩ := runnerOk.heap
  have positive := heap.layout.addr_pos runMember.1
  have aligned := heap.layout.addr_dvd runMember.1
  have sizes := heap.layout.sizes run runMember.1
    (by rw [runMember.2]; decide)
  have owner := heap.owner runMember
  unfold Session.stop
  rw [bytes] at covers ⊢
  rw [← addrEq]
  refine ⟨by omega, by omega, by omega, by omega, ?_, ?_⟩
  · rw [← owner]
    congr 1
  · intro word lower upper
    apply heap.inChunks_of_holds runMember.1
    exact ⟨by omega, by unfold Block.stop; omega⟩

theorem SessionOk.payload_lt {allocation : Allocation}
    (member : allocation ∈ session.live) : allocation.payload < 2 ^ 64 := by
  obtain ⟨runs, parked, runnerOk, held⟩ := ok
  obtain ⟨run, runMember, addrEq, _, large, _⟩ :=
    held.run_spec runnerOk ⟨allocation, member, rfl⟩
  obtain ⟨blocks, heap, rfl⟩ := runnerOk.heap
  have bounded := heap.layout.stop_le runMember.1
  unfold Block.stop at bounded
  omega

/-- A call leaves every allocation it is not given listed, with its contents. -/
theorem SessionOk.perform_kept (allowed : session.Allows operation)
    {allocation : Allocation} (member : allocation ∈ session.live)
    (spared : ¬ operation.Releases allocation.payload) :
    (∃ kept ∈ (session.perform cfg operation).live,
      kept.payload = allocation.payload ∧
        kept.requested = allocation.requested) ∧
    ∀ word, allocation.payload - 8 ≤ word → word < session.stop allocation →
      (session.perform cfg operation).state.mem word =
        session.state.mem word := by
  obtain ⟨runs, parked, runnerOk, held⟩ := ok
  refine ⟨?_, fun word lower upper =>
    perform_keeps runnerOk held allowed member spared lower upper⟩
  have filtered : ∀ payload, payload ≠ allocation.payload →
      allocation ∈ session.release payload := fun payload distinct =>
    List.mem_filter.mpr ⟨member, by simpa using distinct.symm⟩
  cases operation with
  | allocateBytes os bytes alignment =>
      unfold Session.perform
      dsimp only
      split
      · refine ⟨allocation, ?_, rfl, rfl⟩
        dsimp only
        split
        · exact member
        · exact List.mem_cons_of_mem _ member
      · exact ⟨allocation, member, rfl, rfl⟩
  | deallocateBytes payload =>
      exact ⟨allocation, filtered payload fun same => spared (Or.inl (by rw [same])),
        rfl, rfl⟩
  | expand payload minNewBytes =>
      refine ⟨_, List.mem_map_of_mem member, ?_⟩
      split <;> exact ⟨rfl, rfl⟩
  | remotePush payload =>
      exact ⟨allocation, filtered payload fun same => spared (Or.inr (by rw [same])),
        rfl, rfl⟩

end SessionOk

end Runner

end Allocazam
