import Allocazam.PoolLayout
import Allocazam.RunnerModel

/-!
# The node pool

`allocazam<T, Mode, OwnerHeaders>`: chunks of nodes, a free list threaded
through the first word of each free node, and for pools with owner headers a
remote stack threaded through the same words.
-/

namespace Allocazam

namespace Pool

structure Members where
  size : Nat
  capacity : Nat
  nextGrowth : Nat
  freeHead : Nat
  chunks : List Chunk
  remoteHead : Nat
  deriving DecidableEq, Repr

/-- The pool together with the memory it works on. -/
structure State extends Members where
  mem : Nat → Nat

/-- `::operator new[]` at the time of one call: the base address of an array of
the given length and alignment, if it can be had.  An array is aligned, does not
wrap around the address space and holds no address in use. -/
structure Heap where
  inUse : Nat → Prop
  grant : Nat → Nat → Option Nat
  sound : ∀ bytes align base, grant bytes align = some base →
    0 < base ∧ align ∣ base ∧ base + bytes ≤ 2 ^ 64 ∧
      ∀ addr, base ≤ addr → addr < base + bytes → ¬ inUse addr

/-- Write `value` at the given offset of the first granules from `base` on. -/
def fillGranules (base granule offset value : Nat) :
    Nat → (Nat → Nat) → Nat → Nat
  | 0, mem => mem
  | count + 1, mem =>
      Function.update (fillGranules base granule offset value count mem)
        (base + count * granule + offset) value

namespace State

variable (cfg : Config) (s : State)

def write (addr value : Nat) : State :=
  { s with mem := Function.update s.mem addr value }

def pushFreeNode (n : Nat) : State :=
  let s := s.write n s.freeHead
  { s with freeHead := n }

/-- `_pop_free_node`: the node, or null. -/
def popFreeNode : State × Nat :=
  if s.freeHead = 0 then (s, 0)
  else ({ s with freeHead := s.mem s.freeHead }, s.freeHead)

def spliceNode (n : Nat) : State :=
  let s := s.pushFreeNode n
  { s with size := decrement s.size }

/-- The loop of `_drain_remote` from `n` on, for at most `fuel` nodes. -/
def spliceWalk : Nat → Nat → State → State
  | 0, _, s => s
  | fuel + 1, n, s =>
      if n = 0 then s
      else
        let next := s.mem n
        spliceWalk fuel next (s.spliceNode n)

def drainRemote : State × Bool :=
  let n := s.remoteHead
  let s := { s with remoteHead := 0 }
  if n = 0 then (s, false) else (spliceWalk s.capacity n s, true)

/-- `chunk_t(sz, page_size, alloc_alignment)`. -/
def constructChunk (heap : Heap) (slots : Nat) : State × Except Exn Chunk :=
  match cfg.chunkBytes slots with
  | none => (s, .error .badArrayNewLength)
  | some bytes =>
      match heap.grant bytes cfg.chunkAlign with
      | none => (s, .error .refused)
      | some base =>
          let chunk : Chunk := ⟨slots, cfg.chunkAlign, base⟩
          if cfg.ownerHeaders then
            let granules := bytes / cfg.granule
            let mem := fillGranules base cfg.granule 0 0 granules s.mem
            let mem :=
              fillGranules base cfg.granule 8 granuleDebugTag granules mem
            ({ s with mem }, .ok chunk)
          else (s, .ok chunk)

def stampOwner (chunk : Chunk) : State :=
  if chunk.nodes = 0 then s
  else
    { s with
      mem := fillGranules chunk.nodes chunk.allocAlign 0 cfg.self
        (chunk.granuleCount cfg) s.mem }

/-- The end of `_add_chunk` and `_add_external_chunk`: all nodes of the chunk
enter the free list. -/
def seed (chunk : Chunk) : State :=
  let s := (chunk.list cfg).foldl pushFreeNode s
  { s with capacity := wrapAdd s.capacity chunk.count }

def addChunk (heap : Heap) (slots : Nat) : State × Except Exn Unit :=
  match s.constructChunk cfg heap slots with
  | (s, .error exn) => (s, .error exn)
  | (s, .ok chunk) =>
      let s :=
        { s with
          chunks := if cfg.mode = MemoryMode.fixed then [chunk] else s.chunks ++ [chunk] }
      let s := if cfg.ownerHeaders then s.stampOwner cfg chunk else s
      (s.seed cfg chunk, .ok ())

def grow (heap : Heap) : State × Except Exn Unit :=
  match checkedMul s.nextGrowth 2 with
  | none => (s, .error .badAlloc)
  | some doubledGrowth =>
      let s := { s with nextGrowth := max 1 doubledGrowth }
      s.addChunk cfg heap s.nextGrowth

/-- Hand out the node `n`. -/
def handOut (n : Nat) : State × Except Exn Nat :=
  ({ s with size := wrapAdd s.size 1 }, .ok n)

/-- `allocate` once the free list and the remote stack are empty: the deferred
first chunk. -/
def allocateDeferred (heap : Heap) : State × Except Exn Nat :=
  if cfg.heapBacked ∧ s.capacity = 0 ∧ s.nextGrowth ≠ 0 then
    match s.addChunk cfg heap s.nextGrowth with
    | (s, .error exn) => (s, .error exn)
    | (s, .ok ()) =>
        let (s, n) := s.popFreeNode
        (s, .ok n)
  else (s, .ok 0)

/-- `allocate` from there on: null, or growth. -/
def allocateGrown (heap : Heap) : State × Except Exn Nat :=
  if cfg.fixedLike then (s, .ok 0)
  else
    match s.grow cfg heap with
    | (s, .error exn) => (s, .error exn)
    | (s, .ok ()) =>
        let (s, n) := s.popFreeNode
        if n = 0 then (s, .error .badAlloc) else s.handOut n

/-- `allocate` from the point where the remote stack has been dealt with, with
the node found so far or null. -/
def resumeAllocate (heap : Heap) (n : Nat) : State × Except Exn Nat :=
  if n = 0 then
    match s.allocateDeferred cfg heap with
    | (s, .error exn) => (s, .error exn)
    | (s, .ok n) => if n = 0 then s.allocateGrown cfg heap else s.handOut n
  else s.handOut n

/-- `allocate` from its last pop on. -/
def provide (heap : Heap) : State × Except Exn Nat :=
  let (s, n) := s.popFreeNode
  s.resumeAllocate cfg heap n

/-- `allocate`: a node, null, or an exception. -/
def allocate (heap : Heap) : State × Except Exn Nat :=
  let (s, n) := s.popFreeNode
  if n = 0 ∧ cfg.ownerHeaders then
    match s.drainRemote with
    | (s, true) => s.provide cfg heap
    | (s, false) => s.resumeAllocate cfg heap 0
  else s.resumeAllocate cfg heap n

def deallocate (ptr : Nat) : State :=
  if ptr = 0 then s
  else
    let s := s.pushFreeNode ptr
    { s with size := decrement s.size }

/-- `remote_push`, run without interference. -/
def remotePush (ptr : Nat) : State :=
  let s := s.write ptr s.remoteHead
  { s with remoteHead := ptr }

/-- `_owns_pointer`. -/
def owns (ptr : Nat) : Bool :=
  s.chunks.any fun chunk => chunk.contains cfg ptr

def blank (mem : Nat → Nat) (nextGrowth : Nat) : State where
  size := 0
  capacity := 0
  nextGrowth := nextGrowth
  freeHead := 0
  chunks := if cfg.mode = MemoryMode.dynamic then [] else [Chunk.empty cfg]
  remoteHead := 0
  mem := mem

/-- `allocazam(size_t pool_size)`. -/
def construct (heap : Heap) (mem : Nat → Nat) (poolSize : Nat) :
    Except Exn State :=
  if hasSingleBit poolSize = false then
    .error (.invalidArgument "allocator buffer size must be a power of 2")
  else
    match (blank cfg mem poolSize).addChunk cfg heap poolSize with
    | (_, .error exn) => .error exn
    | (s, .ok ()) => .ok s

/-- `allocazam(size_t pool_size, lazy_init_t)`. -/
def constructLazy (mem : Nat → Nat) (poolSize : Nat) : Except Exn State :=
  if hasSingleBit poolSize = false then
    .error (.invalidArgument "allocator buffer size must be a power of 2")
  else .ok (blank cfg mem poolSize)

/-- `allocazam(std::span<std::byte> backing)` on `[data, data + size)`. -/
def constructExternal (mem : Nat → Nat) (data size : Nat) : Except Exn State :=
  if size = 0 then
    .error (.invalidArgument "allocator backing buffer must not be empty")
  else
    -- `std::align(node_alignment, node_size, aligned, space)`
    let aligned :=
      (data + (cfg.nodeAlignment - 1)) / cfg.nodeAlignment * cfg.nodeAlignment
    if size < cfg.nodeBytes + (aligned - data) then
      .error (.invalidArgument
        "allocator backing buffer cannot satisfy node alignment")
    else
      let space := size - (aligned - data)
      let nodeCount := space / cfg.nodeBytes
      if nodeCount = 0 then
        .error (.invalidArgument
          "allocator backing buffer too small for one node")
      else
        let chunk : Chunk := ⟨nodeCount, cfg.nodeAlignment, aligned⟩
        let s := { blank cfg mem 0 with chunks := [chunk] }
        .ok (s.seed cfg chunk)

end State

end Pool

end Allocazam
