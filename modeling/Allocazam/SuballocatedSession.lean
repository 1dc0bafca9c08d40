import Allocazam.RunnerTerritory
import Allocazam.SharedMemory
import Allocazam.SuballocatedOperations
import Allocazam.PoolTerritory

/-!
# Sessions of the suballocated allocator

A session is a world together with the allocations its users hold.  Threads
allocate and free through allocators of all three modes, pass pointers to one
another, write to what they hold and exit.
-/

namespace Allocazam

namespace Suballocated

variable {Value Thread Bound : Type} [DecidableEq Value] [DecidableEq Thread]
  [DecidableEq Bound]

/-- The arguments of the constructors of `allocazam_std_state`. -/
inductive Arguments where
  | sized (poolSize runnerBytes : Nat)
  | deferred
  | backed (nodeData nodeSize runData runSize : Nat)

namespace World

variable (fam : Family Value Thread Bound) (w : World Value Thread Bound)

/-- `allocazam_std_state(size_t pool_size, size_t runner_bytes)`; a fixed state
takes the pool size only. -/
def constructSized (site : Site Value Thread Bound) (heap : Pool.Heap)
    (os : Runner.Os) (poolSize runnerBytes : Nat) :
    World Value Thread Bound × Except Exn Unit :=
  match Pool.State.construct (fam.poolConfig site) heap w.mem poolSize with
  | .error exn => (w, .error exn)
  | .ok pool =>
      let runnerBytes :=
        if fam.mode = MemoryMode.fixed then
          max (poolSize * fam.sizeOf (fam.valueOf site) % 2 ^ 64) 4096
        else runnerBytes
      match Runner.State.construct (fam.runsConfig site) os pool.mem
        runnerBytes with
      | .error exn => (w, .error exn)
      | .ok runs =>
          ({ w with
            mem := runs.mem
            states := Function.update w.states site
              ⟨pool.toMembers, runs.toAllocator⟩
            created := Function.update w.created site true }, .ok ())

/-- `allocazam_std_state(std::span<std::byte> node_backing,
std::span<std::byte> run_backing)`. -/
def constructBacked (site : Site Value Thread Bound)
    (nodeData nodeSize runData runSize : Nat) :
    World Value Thread Bound × Except Exn Unit :=
  match Pool.State.constructExternal (fam.poolConfig site) w.mem nodeData
    nodeSize with
  | .error exn => (w, .error exn)
  | .ok pool =>
      match Runner.State.constructExternal pool.mem runData runSize with
      | .error exn => (w, .error exn)
      | .ok runs =>
          ({ w with
            mem := runs.mem
            states := Function.update w.states site
              ⟨pool.toMembers, runs.toAllocator⟩
            created := Function.update w.created site true }, .ok ())

def construct (site : Site Value Thread Bound) (heap : Pool.Heap)
    (os : Runner.Os) :
    Arguments → World Value Thread Bound × Except Exn Unit
  | .sized poolSize runnerBytes =>
      w.constructSized fam site heap os poolSize runnerBytes
  | .deferred =>
      ({ w with
        states := Function.update w.states site (fam.lazyState w.mem site)
        created := Function.update w.created site true }, .ok ())
  | .backed nodeData nodeSize runData runSize =>
      w.constructBacked fam site nodeData nodeSize runData runSize

end World

inductive Tenant (Value Thread Bound : Type) where
  | pool (site : Site Value Thread Bound)
  | runs (site : Site Value Thread Bound)
  deriving DecidableEq

namespace World

variable (fam : Family Value Thread Bound) (w : World Value Thread Bound)

def territory : Tenant Value Thread Bound → Set Nat
  | .pool site => (w.states site).pool.footprint (fam.poolConfig site)
  | .runs site => (w.states site).runs.footprint

def inUse : Set Nat :=
  {addr | ∃ tenant, addr ∈ w.territory fam tenant}

def payloadBytes (p : Nat) : Nat :=
  Runner.sizeField (w.mem (p - 16)) - 16

end World

/-- Nothing the system provides is in use. -/
structure Environment.Avoids (env : Environment) (inUse : Set Nat) : Prop where
  heap : ∀ addr ∈ inUse, env.heap.inUse addr
  os : ∀ i, (env.os i).Avoids inUse

/-- An allocation as its user sees it: the allocator it came from, the count
asked for, the count returned, and the pointer. -/
structure Item (fam : Family Value Thread Bound) where
  value : Value
  handle : Handle fam value
  requested : Nat
  count : Nat
  ptr : Nat
  deriving DecidableEq

/-- Single values come from a pool, unless the allocator has none. -/
def Item.IsNode {fam : Family Value Thread Bound} (item : Item fam) : Prop :=
  item.count = 1 ∧ item.handle.mode ≠ .runsOverride

/-- The world, the allocations not yet freed, and which thread has destroyed its
cache for which value type. -/
structure Session (fam : Family Value Thread Bound) where
  world : World Value Thread Bound
  live : List (Item fam)
  exited : Value → Thread → Bool

/-- A call of a user. -/
inductive Operation (fam : Family Value Thread Bound) where
  | construct (state : Bound) (heap : Pool.Heap) (os : Runner.Os)
      (arguments : Arguments)
  | allocate {value : Value} (a : Handle fam value) (thread : Thread)
      (env : Environment) (n : Nat)
  | allocateAtLeast {value : Value} (a : Handle fam value) (thread : Thread)
      (env : Environment) (n : Nat)
  | deallocate (item : Item fam) (b : Handle fam item.value) (thread : Thread)
      (m : Nat)
  | expand (item : Item fam) (b : Handle fam item.value) (thread : Thread)
      (minNewBytes : Nat)
  | exit (value : Value) (thread : Thread)

def Handle.Usable {fam : Family Value Thread Bound} {value : Value}
    (a : Handle fam value) (w : World Value Thread Bound) : Prop :=
  ∀ site, a.state = some site ∨ a.override = some site → w.created site = true

namespace Session

variable {fam : Family Value Thread Bound} (session : Session fam)

/-- The arguments a state may be constructed with.  Memory the system or the
user provides is not in use. -/
def AllowsConstruction (state : Bound) (heap : Pool.Heap) (os : Runner.Os) :
    Arguments → Prop
  | .sized poolSize runnerBytes =>
      fam.heapBacked = true ∧ poolSize < 2 ^ 64 ∧ runnerBytes < 2 ^ 64 ∧
        (∀ addr ∈ session.world.inUse fam, heap.inUse addr) ∧
        ∀ pool, Pool.State.construct (fam.poolConfig (.bound state)) heap
          session.world.mem poolSize = .ok pool →
            os.Avoids (session.world.inUse fam ∪
              pool.footprint (fam.poolConfig (.bound state)))
  | .deferred => fam.heapBacked = true
  | .backed nodeData nodeSize runData runSize =>
      fam.heapBacked = false ∧ 0 < nodeData ∧ nodeData + nodeSize ≤ 2 ^ 64 ∧
        0 < runData ∧ runData + runSize ≤ 2 ^ 64 ∧
        (∀ addr ∈ session.world.inUse fam,
          ¬ (nodeData ≤ addr ∧ addr < nodeData + nodeSize) ∧
            ¬ (runData ≤ addr ∧ addr < runData + runSize)) ∧
        ∀ addr, nodeData ≤ addr → addr < nodeData + nodeSize →
          ¬ (runData ≤ addr ∧ addr < runData + runSize)

/-- The calls users may make.  What was allocated through one allocator is freed
through an equal one, with a count from the one asked for to the one
returned. -/
def Allows : Operation fam → Prop
  | .construct state heap os arguments =>
      session.world.created (.bound state) = false ∧
        session.AllowsConstruction state heap os arguments
  | @Operation.allocate _ _ _ _ value a thread env n =>
      session.exited value thread = false ∧ a.Usable session.world ∧
        env.Avoids (session.world.inUse fam) ∧ n < 2 ^ 64
  | @Operation.allocateAtLeast _ _ _ _ value a thread env n =>
      session.exited value thread = false ∧ a.Usable session.world ∧
        env.Avoids (session.world.inUse fam) ∧ n ≤ fam.maxSize value
  | .deallocate item b thread m =>
      session.exited item.value thread = false ∧ item ∈ session.live ∧
        b.Equal item.handle ∧ item.requested ≤ m ∧ m ≤ item.count
  | .expand item b thread minNewBytes =>
      session.exited item.value thread = false ∧ item ∈ session.live ∧
        b.Equal item.handle ∧ minNewBytes < 2 ^ 64
  | .exit value thread => session.exited value thread = false

def record {value : Value} (a : Handle fam value) (requested count p : Nat) :
    List (Item fam) :=
  if p = 0 then session.live
  else ⟨value, a, requested, count, p⟩ :: session.live

def perform : Operation fam → Session fam
  | .construct state heap os arguments =>
      { session with
        world :=
          (session.world.construct fam (.bound state) heap os arguments).1 }
  | .allocate a thread env n =>
      match session.world.allocate fam a thread env n with
      | (w, .ok p) => { session with world := w, live := session.record a n n p }
      | (w, .error _) => { session with world := w }
  | .allocateAtLeast a thread env n =>
      match session.world.allocateAtLeast fam a thread env n with
      | (w, .ok (p, count)) =>
          { session with world := w, live := session.record a n count p }
      | (w, .error _) => { session with world := w }
  | .deallocate item b thread m =>
      { session with
        world := session.world.deallocate fam b thread item.ptr m
        live := session.live.filter fun other => other.ptr ≠ item.ptr }
  | .expand item b thread minNewBytes =>
      { session with
        world := (session.world.expand fam b thread item.ptr minNewBytes).1 }
  | .exit value thread =>
      { session with
        world := session.world.destroyCache fam value thread
        exited := Function.update session.exited value
          (Function.update (session.exited value) thread true) }

/-- The address belongs to the node or to the payload of an allocation. -/
def Writable (addr : Nat) : Prop :=
  ∃ item ∈ session.live, item.ptr ≤ addr ∧
    (item.IsNode ∧ addr < item.ptr +
        Pool.nodeBytes (fam.sizeOf item.value) (fam.alignOf item.value) ∨
      ¬ item.IsNode ∧ addr < item.ptr + session.world.payloadBytes item.ptr)

end Session

def World.initial (fam : Family Value Thread Bound) (mem : Nat → Nat) :
    World Value Thread Bound where
  mem := mem
  states := fam.lazyState mem
  created := fun _ => false
  classes := fun _ _ _ => ⟨0, 0⟩

/-- A call, a user writing to an allocation, or a write to memory that belongs
to no pool and no runner. -/
inductive Steps (fam : Family Value Thread Bound) :
    Session fam → Session fam → Prop
  | call {session : Session fam} (operation : Operation fam)
      (allowed : session.Allows operation) :
      Steps fam session (session.perform operation)
  | store {session : Session fam} (addr value : Nat)
      (writable : session.Writable addr) :
      Steps fam session { session with world := session.world.write addr value }
  | elsewhere {session : Session fam} (addr value : Nat)
      (unused : addr ∉ session.world.inUse fam) :
      Steps fam session { session with world := session.world.write addr value }

/-- The sessions of a program. -/
def sessions (fam : Family Value Thread Bound) :
    TransitionSystem (Session fam) where
  start session := ∃ mem, session =
    ⟨World.initial fam mem, [], fun _ _ => false⟩
  step := Steps fam

end Suballocated

end Allocazam
