import Allocazam.PoolSession

/-!
# No pool loses a node

In every run the nodes of a pool are its free nodes, the nodes in use and the
parked ones, calls leave the nodes in use alone, and a pool that cannot grow
fails for want of nodes only.
-/

namespace Allocazam

namespace Pool

variable {cfg : Config} {slots : Nat} {deferred : Bool} {session : Session}
  {free parked : List Nat} {heap : Heap}

namespace SessionOk

variable (inv : SessionOk cfg slots deferred session free parked)

include inv

/-- Calls leave the nodes in use alone, except the one given to the call. -/
theorem frame {operation : Operation} (allowed : session.Allows cfg operation)
    {n : Nat} (holds : n ∈ session.live) (other : operation.argument ≠ some n)
    {addr : Nat} (inNode : addr ∈ cfg.nodeRange n) :
    (session.perform cfg operation).state.mem addr =
      session.state.mem addr := by
  have node : ∀ {m}, m ∈ session.live → m ∈ session.state.nodes cfg := fun held =>
    inv.balanced.mem_nodes_iff.mpr (Or.inr (Or.inr (Or.inr held)))
  have apart : ∀ {m}, m ∈ session.live → m ≠ n → addr ≠ m := by
    rintro m held distinct rfl
    exact Set.disjoint_left.mp
      (inv.balanced.laid.nodes_apart (node holds) (node held) distinct.symm)
      inNode (cfg.self_mem_nodeRange _)
  cases operation with
  | allocate heap =>
      obtain ⟨u, free', parked', balanced, provides, inUse, _, _, _, kept, _, _⟩ :=
        inv.allocates allowed
      have drained : u.mem addr = session.state.mem addr := by
        apply kept
        intro isParked
        exact inv.balanced.range_apart holds (Or.inr (Or.inl isParked)) inNode
      rw [← drained]
      unfold Session.perform
      dsimp only
      generalize session.state.allocate cfg heap = outcome at provides
      cases provides with
      | taken => rfl
      | exhausted => rfl
      | failed => rfl
      | grown _ grows _ =>
          apply grows.kept
          intro inChunk
          apply grows.fresh.unused addr inChunk
          apply inUse
          apply balanced.laid.nodeRange_subset _ inNode
          exact balanced.mem_nodes_iff.mpr (Or.inr (Or.inr (Or.inr holds)))
  | deallocate m =>
      have distinct : m ≠ n := fun same => other (by rw [same]; rfl)
      unfold Session.perform State.deallocate
      dsimp only
      split
      · rfl
      · exact Function.update_of_ne (apart allowed distinct) _ _
  | remotePush m =>
      have distinct : m ≠ n := fun same => other (by rw [same]; rfl)
      exact Function.update_of_ne (apart allowed.2 distinct) _ _

/-- A pool that cannot grow returns null when all requested nodes are in use,
and only then. -/
theorem null_iff (fixedLike : cfg.fixedLike = true)
    (inUse : ∀ addr ∈ session.state.footprint cfg, heap.inUse addr) :
    (session.state.allocate cfg heap).2 = .ok 0 ↔
      session.live.length = slots := by
  obtain ⟨u, free', parked', balanced, provides, _, _, growth, capacity, _, _,
    empty⟩ := inv.allocates inUse
  have total := inv.balanced.capacity_eq
  have total' := balanced.capacity_eq
  rw [List.length_nil, Nat.add_zero] at total total'
  have requested := inv.requested fixedLike
  constructor
  · intro null
    generalize session.state.allocate cfg heap = outcome at provides null
    cases provides with
    | taken =>
        have nonnull := balanced.stack.2.1
        simp only [Except.ok.injEq] at null
        exact absurd null nonnull
    | exhausted _ populated =>
        obtain ⟨rfl, rfl, rfl⟩ := empty rfl
        simp only [List.length_nil] at total
        have some : session.state.capacity ≠ 0 := by
          rcases inv.populated with some | ⟨_, heapBacked⟩
          · exact some
          · rw [capacity, growth, inv.growth fixedLike heapBacked] at populated
            have positive := inv.positive
            rcases populated heapBacked with some | none
            · exact some
            · omega
        have := requested some
        omega
    | failed => simp at null
    | @grown _ _ _ n _ _ grows nodes =>
        have nonnull := grows.ok.nonnull
          (grows.ok.listed n (by rw [nodes]; simp))
        simp only [Except.ok.injEq] at null
        exact absurd null nonnull
  · intro full
    have positive := inv.positive
    have some : session.state.capacity ≠ 0 := by omega
    have := requested some
    have none : free' = [] := List.eq_nil_of_length_eq_zero (by omega)
    generalize session.state.allocate cfg heap = outcome at provides
    cases provides with
    | taken => simp at none
    | exhausted => rfl
    | failed growth =>
        rcases growth with ⟨_, ⟨_, unpopulated, _⟩ | ⟨_, dynamic, _⟩⟩ |
          ⟨_, _, dynamic, _⟩
        · omega
        · simp [fixedLike] at dynamic
        · simp [fixedLike] at dynamic
    | grown growth _ _ =>
        rcases growth with ⟨unpopulated, _⟩ | ⟨_, dynamic, _⟩
        · omega
        · simp [fixedLike] at dynamic

theorem chunks_kept
    (inUse : ∀ addr ∈ session.state.footprint cfg, heap.inUse addr)
    (some : free ≠ [] ∨ parked ≠ []) :
    (session.perform cfg (.allocate heap)).state.chunks =
      session.state.chunks := by
  obtain ⟨u, free', parked', _, provides, _, chunks, _, _, _, _, empty⟩ :=
    inv.allocates inUse
  rw [← chunks]
  unfold Session.perform
  dsimp only
  generalize session.state.allocate cfg heap = outcome at provides
  cases provides with
  | taken => rfl
  | exhausted => rfl
  | failed => rfl
  | grown =>
      obtain ⟨noFree, noParked, _⟩ := empty rfl
      rcases some with absurdFree | absurdParked
      · exact absurd noFree absurdFree
      · exact absurd noParked absurdParked

end SessionOk

/-- Every node of every chunk is free, in use or parked, and only one of these;
the counters count them; calls write to no node in use but the one they are
given; a pool that cannot grow returns null when all its nodes are in use and
only then; and a growing pool adds a chunk only when no node is free or
parked. -/
theorem nodes_conserved (reachable :
      (sessions cfg slots deferred).Reachable session) :
    (∃ free parked, IsStack session.state.mem session.state.freeHead free ∧
      IsStack session.state.mem session.state.remoteHead parked ∧
      (free ++ session.live ++ parked).Nodup ∧
      (∀ n, n ∈ session.state.nodes cfg ↔
        n ∈ free ∨ n ∈ session.live ∨ n ∈ parked) ∧
      session.state.size = session.live.length + parked.length ∧
      (cfg.ownerHeaders = false → parked = []) ∧
      ∀ heap, session.Allows cfg (.allocate heap) →
        (session.perform cfg (.allocate heap)).state.chunks ≠
          session.state.chunks → free = [] ∧ parked = []) ∧
    (session.state.nodes cfg).Nodup ∧
    session.state.capacity = (session.state.nodes cfg).length ∧
    (∀ operation, session.Allows cfg operation → ∀ n ∈ session.live,
      operation.argument ≠ some n → ∀ addr ∈ cfg.nodeRange n,
        (session.perform cfg operation).state.mem addr =
          session.state.mem addr) ∧
    (cfg.fixedLike = true →
      (session.state.capacity = slots ∨
        deferred = true ∧ session.state.capacity = 0) ∧
      ∀ heap, session.Allows cfg (.allocate heap) →
        ((session.state.allocate cfg heap).2 = .ok 0 ↔
          session.live.length = slots)) := by
  obtain ⟨free, parked, inv⟩ := sessions_inductive.reachable reachable
  have balanced := inv.balanced
  have nodes : (free ++ session.live ++ parked).Perm
      (session.state.nodes cfg) := by
    refine List.Perm.trans ?_ balanced.perm
    rw [List.append_nil, List.append_assoc, List.append_assoc]
    exact List.perm_append_comm.append_left free
  refine ⟨⟨free, parked, balanced.stack, balanced.remote, ?_, fun n => ?_, ?_,
    inv.raw, fun heap allowed changed => ?_⟩, balanced.laid.nodes_nodup,
    balanced.capacity, fun operation allowed n holds other addr inNode =>
      inv.frame allowed holds other inNode, fun fixedLike => ⟨?_, fun heap allowed =>
        inv.null_iff fixedLike allowed⟩⟩
  · exact nodes.nodup_iff.mpr balanced.laid.nodes_nodup
  · rw [← nodes.mem_iff]
    simp only [List.mem_append, or_assoc]
  · rw [balanced.size_eq]
    simp only [List.length_nil]
    omega
  · by_contra some
    apply changed
    apply inv.chunks_kept allowed
    tauto
  · rcases inv.populated with some | ⟨isDeferred, _⟩
    · exact Or.inl (inv.requested fixedLike some)
    · by_cases none : session.state.capacity = 0
      · exact Or.inr ⟨isDeferred, none⟩
      · exact Or.inl (inv.requested fixedLike none)

def samplePool (mode : MemoryMode) : Config where
  sizeT := 8
  alignT := 8
  mode := mode
  ownerHeaders := false
  pageSize := 4096
  self := 64
  sizePositive := by decide
  alignBits := ⟨3, rfl⟩
  pageBits := ⟨12, by decide, rfl⟩
  nodeBound := by decide
  headersHeap := by simp

/-- A heap that has one page left. -/
def onePage : Heap where
  inUse _ := False
  grant bytes align :=
    if bytes ≤ 4096 ∧ 65536 % align = 0 then some 65536 else none
  sound bytes align base granted := by
    split at granted
    · rename_i fits
      obtain rfl := Option.some.inj granted
      exact ⟨by decide, Nat.dvd_of_mod_eq_zero fits.2, by omega, fun _ _ _ => id⟩
    · simp at granted

/-- A heap that has no memory left. -/
def exhausted : Heap where
  inUse _ := True
  grant _ _ := none
  sound := by simp

def sampleState (mode : MemoryMode) : State :=
  match State.construct (samplePool mode) onePage (fun _ => 0) 1 with
  | .ok s => s
  | .error _ => State.blank (samplePool mode) (fun _ => 0) 0

/-- The only node of the pool in use. -/
def sampleSession (mode : MemoryMode) : Session :=
  (Session.mk (sampleState mode) []).perform (samplePool mode)
    (.allocate exhausted)

theorem samplePool_reachable {mode : MemoryMode} (heapBacked : mode ≠ .noheap) :
    (sessions (samplePool mode) 1 false).Reachable (sampleSession mode) := by
  have begins : Starts (samplePool mode) 1 false ⟨sampleState mode, []⟩ := by
    cases mode with
    | fixed => exact .eager onePage (fun _ => 0) rfl (by decide) rfl
    | dynamic => exact .eager onePage (fun _ => 0) rfl (by decide) rfl
    | noheap => exact absurd rfl heapBacked
  apply TransitionSystem.Reachable.step (.start begins)
  apply Steps.call
  exact fun _ _ => trivial

/-- A pool of over-aligned nodes with owner headers. -/
def headerPool : Config where
  sizeT := 40
  alignT := 32
  mode := .dynamic
  ownerHeaders := true
  pageSize := 4096
  self := 64
  sizePositive := by decide
  alignBits := ⟨5, rfl⟩
  pageBits := ⟨12, by decide, rfl⟩
  nodeBound := by decide
  headersHeap := by simp

/-- A heap with memory from `start` on, of which nothing below is free. -/
def memoryAt (start : Nat) (bounds : 0 < start ∧ start + 2 ^ 20 ≤ 2 ^ 64) : Heap where
  inUse addr := addr < start
  grant bytes align :=
    if bytes ≤ 2 ^ 20 ∧ start % align = 0 then some start else none
  sound bytes align base granted := by
    split at granted
    · rename_i fits
      obtain rfl := Option.some.inj granted
      refine ⟨bounds.1, Nat.dvd_of_mod_eq_zero fits.2, by omega, fun addr lower _ => ?_⟩
      exact Nat.not_lt.mpr lower
    · simp at granted

def nextPage : Heap :=
  memoryAt 131072 (by decide)

/-- The two nodes of the first chunk are in use, and the pool has been refused more. -/
def filledPool : Session :=
  (((Session.mk (State.blank headerPool (fun _ => 0) 2) []).perform headerPool
    (.allocate onePage)).perform headerPool (.allocate exhausted)).perform headerPool
      (.allocate exhausted)

/-- It has grown, and two of the eight new nodes are in use. -/
def grownPool : Session :=
  (filledPool.perform headerPool (.allocate nextPage)).perform headerPool
    (.allocate exhausted)

/-- Another thread has freed a node, and so has its own. -/
def headerSession : Session :=
  (grownPool.perform headerPool (.remotePush 65632)).perform headerPool
    (.deallocate 131488)

theorem filledPool_state :
    filledPool.live = [65568, 65632] ∧
      filledPool.state.chunks = [⟨2, 4096, 65536⟩] ∧ filledPool.state.nextGrowth = 4 := by
  decide +kernel

theorem grownPool_state :
    grownPool.live = [131488, 131552, 65568, 65632] ∧
      grownPool.state.nextGrowth = 8 := by
  decide +kernel

theorem headerSession_state :
    headerSession.live = [131552, 65568] ∧ headerSession.state.freeHead = 131488 ∧
      headerSession.state.remoteHead = 65632 ∧ headerSession.state.capacity = 10 := by
  decide +kernel

/-- The heap that grants the second chunk knows of the first. -/
theorem filledPool_inUse : filledPool.Allows headerPool (.allocate nextPage) := by
  rintro addr ⟨chunk, member, _, upper⟩
  rw [filledPool_state.2.1] at member
  obtain rfl := List.mem_singleton.mp member
  exact upper.trans_le (by decide)

theorem headerStart : Starts headerPool 2 true
    ⟨State.blank headerPool (fun _ => 0) 2, []⟩ :=
  .deferred (fun _ => 0) rfl (by decide) rfl

theorem headerStart_inUse :
    (Session.mk (State.blank headerPool (fun _ => 0) 2) []).Allows headerPool
      (.allocate onePage) := by
  intro addr inChunk
  rw [(blank_vacant (fun _ => 0) 2).footprint] at inChunk
  cases inChunk

theorem headerSession_reachable : (sessions headerPool 2 true).Reachable headerSession := by
  have filled : (sessions headerPool 2 true).Reachable filledPool := by
    refine .step (.step (.step (.start headerStart) (.call _ headerStart_inUse))
      (.call _ ?_)) (.call _ ?_)
    · exact fun _ _ => trivial
    · exact fun _ _ => trivial
  have grown : (sessions headerPool 2 true).Reachable grownPool :=
    .step (.step filled (.call _ filledPool_inUse)) (.call _ fun _ _ => trivial)
  have pushed : 65632 ∈ grownPool.live := by
    rw [grownPool_state.1]
    decide
  have freed : 131488 ∈ grownPool.live.erase 65632 := by
    rw [grownPool_state.1]
    decide
  exact .step (.step grown (.call (.remotePush 65632) ⟨rfl, pushed⟩))
    (.call (.deallocate 131488) freed)

/-- Its nodes are free, in use or parked. -/
theorem headerSession_conserved :
    headerSession.live = [131552, 65568] ∧ ∃ free parked,
      IsStack headerSession.state.mem 131488 free ∧
      IsStack headerSession.state.mem 65632 parked ∧
      (free ++ [131552, 65568] ++ parked).Nodup ∧
      headerSession.state.size = 2 + parked.length := by
  obtain ⟨live, freeHead, remoteHead, _⟩ := headerSession_state
  obtain ⟨⟨free, parked, stack, remote, distinct, _, size, _⟩, _⟩ :=
    nodes_conserved headerSession_reachable
  rw [freeHead] at stack
  rw [remoteHead] at remote
  rw [live] at distinct size
  exact ⟨live, free, parked, stack, remote, distinct, size⟩

end Pool

end Allocazam
