import Allocazam.PoolSession

/-!
# The territory of a pool

A pool owns the memory of its chunks.  Its invariant reads nothing else, its
operations write nowhere else, and only an allocation acquires a further chunk,
of unused memory.
-/

namespace Allocazam

namespace Pool

variable {cfg : Config} {slots : Nat} {deferred : Bool} {session : Session}
  {free parked : List Nat} {operation : Operation} {addr : Nat}

/-- What happens outside its chunks does not concern a session. -/
theorem SessionOk.framed (inv : SessionOk cfg slots deferred session free parked)
    {mem : Nat → Nat}
    (agrees : ∀ addr ∈ session.state.footprint cfg,
      mem addr = session.state.mem addr) :
    SessionOk cfg slots deferred ⟨{ session.state with mem }, session.live⟩ free
      parked :=
  { inv with balanced := inv.balanced.frame agrees }

/-- The heap a call may acquire a chunk from regards the given set as in use. -/
def Operation.Avoids (inUse : Set Nat) : Operation → Prop
  | .allocate heap => ∀ addr ∈ inUse, heap.inUse addr
  | _ => True

theorem construct_footprint {s : State} {heap : Heap} {mem : Nat → Nat}
    {poolSize : Nat} (heapBacked : cfg.heapBacked = true)
    (constructed : State.construct cfg heap mem poolSize = .ok s) :
    (∀ addr ∈ s.footprint cfg, ¬ heap.inUse addr) ∧
      ∀ addr ∉ s.footprint cfg, s.mem addr = mem addr := by
  obtain ⟨_, _, _, chunk, _, grows⟩ := construct_ok heapBacked constructed
  have footprint : s.footprint cfg = chunk.range cfg := by
    rw [grows.footprint, (blank_vacant mem poolSize).footprint, Set.empty_union]
  rw [footprint]
  exact ⟨grows.fresh.unused, grows.kept⟩

/-- A pool on a span owns its nodes, writes to nothing else, and stays within
the span. -/
theorem constructExternal_footprint {s : State} {mem : Nat → Nat}
    {data size : Nat} (raw : cfg.heapBacked = false) (positive : 0 < data)
    (span : data + size ≤ 2 ^ 64)
    (constructed : State.constructExternal cfg mem data size = .ok s) :
    (∀ addr ∈ s.footprint cfg, data ≤ addr ∧ addr < data + size) ∧
      ∀ addr ∉ s.footprint cfg, s.mem addr = mem addr := by
  obtain ⟨chunk, nodes, _, _, chunks, _, within, kept, _⟩ :=
    constructExternal_ok raw positive span constructed
  have after := (alignedData_spec cfg data).2.1
  have bytes : chunk.bytes cfg = chunk.count * cfg.nodeBytes := by
    unfold Chunk.bytes
    rw [(noheap_raw raw).1]
    rfl
  constructor
  · rintro addr ⟨other, member, lower, upper⟩
    rw [chunks, List.mem_singleton] at member
    subst member
    rw [bytes] at upper
    omega
  · intro addr foreign
    apply kept
    intro inside
    exact foreign ⟨chunk, by rw [chunks]; exact List.mem_cons_self, inside⟩

namespace SessionOk

variable (inv : SessionOk cfg slots deferred session free parked)

include inv

theorem mem_footprint {n : Nat} (node : n ∈ session.state.nodes cfg) :
    n ∈ session.state.footprint cfg :=
  inv.balanced.laid.nodeRange_subset node (cfg.self_mem_nodeRange n)

theorem live_node {n : Nat} (holds : n ∈ session.live) :
    n ∈ session.state.nodes cfg :=
  inv.balanced.mem_nodes_iff.mpr (Or.inr (Or.inr (Or.inr holds)))

/-- A call writes to the chunks it leaves the pool with. -/
theorem perform_writes (allowed : session.Allows cfg operation)
    (foreign : addr ∉ (session.perform cfg operation).state.footprint cfg) :
    (session.perform cfg operation).state.mem addr = session.state.mem addr := by
  cases operation with
  | allocate heap =>
      obtain ⟨u, free', parked', balanced, provides, inUse, chunks, _, _, kept,
        _⟩ := inv.allocates allowed
      obtain ⟨_, writes, grows, _⟩ := provides.balanced balanced inUse
      rw [Session.perform_allocate] at foreign ⊢
      have outside : addr ∉ session.state.footprint cfg := by
        intro inside
        apply foreign
        apply grows
        unfold Members.footprint at inside ⊢
        rw [chunks]
        exact inside
      refine (writes addr (Or.inl foreign)).trans (kept addr fun listed => ?_)
      exact outside (inv.mem_footprint
        (inv.balanced.mem_nodes_iff.mpr (Or.inr (Or.inl listed))))
  | deallocate n =>
      have inside := inv.mem_footprint (inv.live_node allowed)
      rw [Session.perform_deallocate
        (inv.balanced.nonnull (inv.live_node allowed))] at foreign ⊢
      apply Function.update_of_ne
      rintro rfl
      exact foreign inside
  | remotePush n =>
      have inside := inv.mem_footprint (inv.live_node allowed.2)
      apply Function.update_of_ne
      rintro rfl
      exact foreign inside

theorem perform_footprint {inUse : Set Nat}
    (allowed : session.Allows cfg operation) (avoids : operation.Avoids inUse)
    (owned : addr ∈ (session.perform cfg operation).state.footprint cfg) :
    addr ∈ session.state.footprint cfg ∨ addr ∉ inUse := by
  cases operation with
  | allocate heap =>
      obtain ⟨u, free', parked', balanced, provides, heapInUse, chunks, _⟩ :=
        inv.allocates allowed
      obtain ⟨_, _, _, acquires⟩ := provides.balanced balanced heapInUse
      rw [Session.perform_allocate] at owned
      rcases acquires addr owned with old | unused
      · apply Or.inl
        unfold Members.footprint at old ⊢
        rw [chunks] at old
        exact old
      · exact Or.inr fun used => unused (avoids addr used)
  | deallocate n =>
      rw [Session.perform_deallocate
        (inv.balanced.nonnull (inv.live_node allowed))] at owned
      exact Or.inl owned
  | remotePush n => exact Or.inl owned

end SessionOk

end Pool

end Allocazam
