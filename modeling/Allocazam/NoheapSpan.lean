import Allocazam.ExclusivePlacement
import Allocazam.PoolTerritory
import Allocazam.RunnerStarted
import Allocazam.RunnerTerritory

/-!
# Pools and runners on a span

A pool and a runner on memory of their user are constructed exactly where the
aligned memory has room for one node and for the smallest chunk.  From then on they
keep the one chunk they have, and write nowhere else.
-/

namespace Allocazam

namespace Pool

variable {cfg : Config} {data size : Nat}

theorem alignedData_isLeast (cfg : Config) (data : Nat) :
    IsLeast {addr | cfg.nodeAlignment ∣ addr ∧ data ≤ addr} (alignedData cfg data) :=
  roundUp_isLeast (by have := cfg.nodeAlignment_ge; omega) data

theorem alignedData_fits {stop : Nat} :
    alignedData cfg data + cfg.nodeBytes ≤ stop ↔
      ∃ addr, cfg.nodeAlignment ∣ addr ∧ data ≤ addr ∧ addr + cfg.nodeBytes ≤ stop := by
  obtain ⟨⟨aligned, after⟩, least⟩ := alignedData_isLeast cfg data
  constructor
  · exact fun fits => ⟨_, aligned, after, fits⟩
  · rintro ⟨addr, alignedAddr, afterAddr, fits⟩
    have first := least ⟨alignedAddr, afterAddr⟩
    omega

/-- A span without room is refused, and no other is. -/
theorem constructExternal_cases (cfg : Config) (mem : Nat → Nat) (data size : Nat) :
    (∃ message, State.constructExternal cfg mem data size =
        .error (.invalidArgument message) ∧
      ¬ alignedData cfg data + cfg.nodeBytes ≤ data + size) ∨
    ∃ s, State.constructExternal cfg mem data size = .ok s ∧
      alignedData cfg data + cfg.nodeBytes ≤ data + size := by
  have node := cfg.nodeBytes_spec.2
  have after := (alignedData_spec cfg data).2.1
  unfold State.constructExternal
  dsimp only
  rw [show (data + (cfg.nodeAlignment - 1)) / cfg.nodeAlignment *
    cfg.nodeAlignment = alignedData cfg data from rfl]
  split
  · exact Or.inl ⟨_, rfl, by omega⟩
  split
  · exact Or.inl ⟨_, rfl, by omega⟩
  rename_i room
  split
  · rename_i none
    have some : 1 ≤ (size - (alignedData cfg data - data)) / cfg.nodeBytes := by
      rw [Nat.le_div_iff_mul_le (by omega)]
      omega
    omega
  · exact Or.inr ⟨_, rfl, by omega⟩

theorem foldl_pushFreeNode_chunks (nodes : List Nat) (s : State) :
    (nodes.foldl State.pushFreeNode s).chunks = s.chunks := by
  induction nodes generalizing s with
  | nil => rfl
  | cons n nodes ih => exact ih (s.pushFreeNode n)

theorem foldl_pushFreeNode_mem {addr : Nat} {nodes : List Nat} (s : State)
    (notNode : addr ∉ nodes) :
    (nodes.foldl State.pushFreeNode s).mem addr = s.mem addr := by
  induction nodes generalizing s with
  | nil => rfl
  | cons n nodes ih =>
      obtain ⟨different, later⟩ := not_or.mp (List.mem_cons.not.mp notNode)
      exact (ih (s.pushFreeNode n) later).trans (Function.update_of_ne different _ _)

theorem seed_links {s : State} {chunk : Chunk} {addr : Nat}
    (only : s.chunks = [chunk]) (notNode : addr ∉ (s.seed cfg chunk).nodes cfg) :
    (s.seed cfg chunk).mem addr = s.mem addr := by
  apply foldl_pushFreeNode_mem
  have chunks : (s.seed cfg chunk).chunks = [chunk] :=
    (foldl_pushFreeNode_chunks _ s).trans only
  unfold Members.nodes at notNode
  rwa [chunks, List.flatMap_singleton] at notNode

theorem constructExternal_links {mem : Nat → Nat} {s : State} {addr : Nat}
    (built : State.constructExternal cfg mem data size = .ok s)
    (notNode : addr ∉ s.nodes cfg) : s.mem addr = mem addr := by
  unfold State.constructExternal at built
  dsimp only at built
  split at built
  · cases built
  split at built
  · cases built
  split at built
  · cases built
  obtain rfl := Except.ok.inj built
  exact (seed_links rfl notNode :)

/-- The nodes that the construction makes of the span. -/
theorem constructExternal_span {mem : Nat → Nat} {s : State}
    (raw : cfg.heapBacked = false) (positive : 0 < data)
    (span : data + size ≤ 2 ^ 64)
    (built : State.constructExternal cfg mem data size = .ok s) :
    ∃ chunk, s.chunks = [chunk] ∧
      IsLeast {addr | cfg.nodeAlignment ∣ addr ∧ data ≤ addr} chunk.nodes ∧
      (s.nodes cfg).length = (data + size - chunk.nodes) / cfg.nodeBytes ∧
      (data ≤ chunk.nodes ∧ chunk.nodes + chunk.bytes cfg ≤ data + size) ∧
      (∀ n ∈ s.nodes cfg, cfg.nodeAlignment ∣ n ∧ data ≤ n ∧
        n + cfg.nodeBytes ≤ data + size) ∧
      ((s.nodes cfg).Pairwise fun n m =>
        Disjoint (cfg.nodeRange n) (cfg.nodeRange m)) ∧
      ∀ addr, ¬ (data ≤ addr ∧ addr + 8 ≤ data + size) → s.mem addr = mem addr := by
  have after := (alignedData_spec cfg data).2.1
  have node := cfg.nodeBytes_spec.2
  obtain ⟨chunk, first, count, _, chunks, _, within, _, balanced⟩ :=
    constructExternal_ok raw positive span built
  have laid := balanced.laid
  have bytes : chunk.bytes cfg = chunk.count * cfg.nodeBytes := by
    unfold Chunk.bytes
    rw [(noheap_raw raw).1, if_neg Bool.false_ne_true]
  have nodes : s.nodes cfg = chunk.list cfg := by
    unfold Members.nodes
    rw [chunks, List.flatMap_singleton]
  have inside : ∀ n ∈ s.nodes cfg, cfg.nodeAlignment ∣ n ∧ data ≤ n ∧
      n + cfg.nodeBytes ≤ data + size := by
    intro n listed
    obtain ⟨other, member, placed, inOther⟩ := laid.chunk_of_node listed
    rw [chunks] at member
    obtain rfl := List.mem_singleton.mp member
    obtain ⟨i, low, rfl⟩ := Chunk.mem_list.mp inOther
    have bounds := Chunk.nodeAt_bounds placed low
    exact ⟨Chunk.nodeAt_dvd placed i, by omega, by omega⟩
  refine ⟨chunk, chunks, ?_, ?_, ⟨by omega, by omega⟩, inside, ?_, ?_⟩
  · rw [first]
    exact alignedData_isLeast cfg data
  · rw [nodes, Chunk.length_list, count, first]
    congr 1
    omega
  · exact laid.nodes_nodup.imp_of_mem fun member other distinct =>
      laid.nodes_apart member other distinct
  · intro addr outside
    refine constructExternal_links built fun listed => outside ?_
    have bounds := inside addr listed
    omega

theorem allocate_noheap (s : State) (noheap : cfg.heapBacked = false)
    (heap : Heap) :
    (s.allocate cfg heap).1.chunks = s.chunks ∧
      (s.allocate cfg heap).1.mem = s.mem := by
  obtain ⟨raw, fixedLike⟩ := noheap_raw noheap
  have popped : s.popFreeNode.1.chunks = s.chunks ∧ s.popFreeNode.1.mem = s.mem := by
    unfold State.popFreeNode
    split <;> exact ⟨rfl, rfl⟩
  unfold State.allocate
  generalize s.popFreeNode = outcome at popped ⊢
  obtain ⟨t, n⟩ := outcome
  dsimp only at popped ⊢
  rw [if_neg (by simp [raw])]
  unfold State.resumeAllocate State.allocateDeferred State.allocateGrown
    State.handOut
  rw [noheap]
  simp only [Bool.false_eq_true, false_and, ↓reduceIte, fixedLike]
  split <;> exact popped

theorem perform_chunks (noheap : cfg.heapBacked = false) (session : Session)
    (operation : Operation) :
    (session.perform cfg operation).state.chunks = session.state.chunks := by
  cases operation with
  | allocate heap =>
      have same := (allocate_noheap session.state noheap heap).1
      unfold Session.perform
      dsimp only
      generalize session.state.allocate cfg heap = outcome at same ⊢
      obtain ⟨t, exn | n⟩ := outcome <;> exact same
  | deallocate n =>
      show (session.state.deallocate n).chunks = _
      unfold State.deallocate
      split <;> rfl
  | remotePush n => rfl

/-- A call writes the link of the node that it is given, if any. -/
theorem perform_links (noheap : cfg.heapBacked = false) {session : Session}
    {operation : Operation} (allowed : session.Allows cfg operation) {addr : Nat}
    (other : addr ∉ session.live) :
    (session.perform cfg operation).state.mem addr = session.state.mem addr := by
  cases operation with
  | allocate heap =>
      have same := (allocate_noheap session.state noheap heap).2
      unfold Session.perform
      dsimp only
      generalize session.state.allocate cfg heap = outcome at same ⊢
      obtain ⟨t, exn | n⟩ := outcome <;> exact congrFun same addr
  | deallocate n =>
      show (session.state.deallocate n).mem addr = _
      unfold State.deallocate
      split
      · rfl
      · apply Function.update_of_ne
        rintro rfl
        exact other allowed
  | remotePush n =>
      have headers := allowed.1
      rw [(noheap_raw noheap).1] at headers
      cases headers

/-- A pool on a span keeps its chunk and writes nowhere else. -/
theorem Steps.confined {slots : Nat} {deferred : Bool} {session next : Session}
    {free parked : List Nat} (noheap : cfg.heapBacked = false)
    (inv : SessionOk cfg slots deferred session free parked)
    (moves : Steps cfg session next) :
    next.state.chunks = session.state.chunks ∧
      ∀ addr ∉ session.state.footprint cfg,
        next.state.mem addr = session.state.mem addr := by
  cases moves with
  | call operation allowed =>
      have chunks := perform_chunks noheap session operation
      refine ⟨chunks, fun addr outside => inv.perform_writes allowed ?_⟩
      unfold Members.footprint at outside ⊢
      rwa [chunks]
  | @store n addr written holds inNode =>
      refine ⟨rfl, fun other outside => ?_⟩
      apply Function.update_of_ne
      rintro rfl
      exact outside (inv.balanced.laid.nodeRange_subset (inv.live_node holds) inNode)

end Pool

namespace Runner

variable {cfg : Config} {data size : Nat}

theorem alignedRun_fits {data stop : Nat} :
    (data + 15) / 16 * 16 + 64 ≤ stop ↔
      ∃ addr, 16 ∣ addr ∧ data ≤ addr ∧ addr + 64 ≤ stop := by
  constructor
  · exact fun fits => ⟨_, Dvd.intro_left _ rfl, by omega, fits⟩
  · rintro ⟨addr, aligned, after, fits⟩
    omega

theorem constructExternal_cases (mem : Nat → Nat) (data size : Nat) :
    (∃ message, State.constructExternal mem data size =
        .error (.invalidArgument message) ∧
      ¬ (data + 15) / 16 * 16 + 64 ≤ data + size) ∨
    ∃ s, State.constructExternal mem data size = .ok s ∧
      (data + 15) / 16 * 16 + 64 ≤ data + size := by
  unfold State.constructExternal State.addExternalChunk
  simp only [runAlignment_eq, minChunkBytes_eq, Nat.add_one_sub_one]
  split
  · exact Or.inl ⟨_, rfl, by omega⟩
  split
  · exact Or.inl ⟨_, rfl, by omega⟩
  split
  · omega
  · exact Or.inr ⟨_, rfl, by omega⟩

theorem initializeFreeRun_deferred {s : State} (chunk : ChunkNode) :
    (s.initializeFreeRun chunk).deferredBytes = s.deferredBytes :=
  congrArg Prod.snd (initializeFreeRun_sizing chunk)

theorem constructExternal_deferred {mem : Nat → Nat} {s : State}
    (built : State.constructExternal mem data size = .ok s) :
    s.deferredBytes = 0 := by
  unfold State.constructExternal State.addExternalChunk at built
  dsimp only at built
  split at built
  · cases built
  split at built
  · cases built
  split at built
  · cases built
  · obtain rfl := Except.ok.inj built
    exact initializeFreeRun_deferred _

theorem perform_fixed {session : Session} (fixed : cfg.canGrow = false)
    (none : session.state.deferredBytes = 0) (operation : Operation)
    (some : session.state.chunks ≠ []) :
    (session.perform cfg operation).state.chunks = session.state.chunks ∧
      (session.perform cfg operation).state.deferredBytes = 0 := by
  cases operation with
  | allocateBytes os bytes alignment =>
      have same := (allocateBytes_fixed os fixed none bytes alignment).1
      have started : Started (session.state.allocateBytes cfg os bytes
          alignment).1.toAllocator := allocateBytes_started (Or.inl none) bytes
            alignment
      have settled := started.resolve_right (by rw [same]; exact some)
      unfold Session.perform
      dsimp only
      generalize session.state.allocateBytes cfg os bytes alignment = outcome
        at same settled ⊢
      obtain ⟨t, exn | p⟩ := outcome <;> exact ⟨same, settled⟩
  | deallocateBytes payload =>
      have outer : (session.state.deallocateBytes cfg payload).outer =
          session.state.outer := deallocateBytes_outer payload
      exact ⟨congrArg Prod.fst outer,
        (congrArg (fun members => members.2.2.1) outer).trans none⟩
  | expand payload minNewBytes =>
      exact ⟨expand_chunks payload minNewBytes,
        (congrArg Prod.snd (expand_sizing payload minNewBytes)).trans none⟩
  | remotePush payload => exact ⟨rfl, none⟩

/-- A fixed runner with a chunk keeps it and writes nowhere else. -/
theorem Moves.confined {session next : Session} (fixed : cfg.canGrow = false)
    (ok : SessionOk cfg session) (none : session.state.deferredBytes = 0)
    (some : session.state.chunks ≠ []) (moves : Moves cfg session next) :
    next.state.chunks = session.state.chunks ∧ next.state.deferredBytes = 0 ∧
      ∀ addr ∉ session.state.footprint,
        next.state.mem addr = session.state.mem addr := by
  cases moves with
  | call operation allowed =>
      obtain ⟨chunks, settled⟩ := perform_fixed fixed none operation some
      refine ⟨chunks, settled, fun addr outside => ok.perform_writes allowed ?_⟩
      unfold Allocator.footprint at outside ⊢
      rwa [chunks]
  | store word value writable =>
      obtain ⟨allocation, member, lower, upper⟩ := writable
      refine ⟨rfl, none, fun other outside => ?_⟩
      apply Function.update_of_ne
      rintro rfl
      obtain ⟨_, _, _, _, _, inside⟩ := ok.payload_spec member
      exact outside (inside other (by omega) upper)

end Runner

end Allocazam
