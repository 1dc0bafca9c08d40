import Allocazam.RunnerModel

/-!
# Operations of the run allocator

The bin search, allocation with its split and absorb branches, coalescing
deallocation, in-place expansion, the remote stack, chunk acquisition and the
three constructors.
-/

namespace Allocazam

namespace Runner

namespace State

variable (cfg : Config) (s : State)

/-- An upper bound on the number of runs of all chunks, and so on the number
of nodes of any list threaded through them. -/
def nodeBound : Nat :=
  (s.chunks.map ChunkNode.bytes).sum

/-- The inner loop of `_find_fit`, from node `h`.  Returns the fitting run or
null, and the scan count. -/
def scanBin (needed : Nat) : Nat → Nat → Nat → Nat × Nat
  | 0, _, scanCount => (0, scanCount)
  | fuel + 1, h, scanCount =>
      if h = 0 then (0, scanCount)
      else
        let scanCount :=
          if cfg.collectStats then wrapAdd scanCount 1 else scanCount
        if s.runSize h ≥ needed then (h, scanCount)
        else scanBin needed fuel (s.mem (nextLink h)) scanCount

/-- The outer loop of `_find_fit`, at bin `idx`. -/
def scanBins (needed startBin : Nat) : Nat → Nat → Nat → Nat × Nat
  | 0, _, scanCount => (0, scanCount)
  | fuel + 1, idx, scanCount =>
      if idx < binCount then
        if idx ≠ startBin ∨ idx < linearBinCount then
          (s.bins idx,
            if cfg.collectStats then wrapAdd scanCount 1 else scanCount)
        else
          match s.scanBin cfg needed s.nodeBound (s.bins idx) scanCount with
          | (0, scanCount) =>
              scanBins needed startBin fuel (s.firstNonemptyBinFrom (idx + 1))
                scanCount
          | found => found
      else (0, scanCount)

/-- `_find_fit`: the state with its statistics updated, the run found (or
null) and the scan count. -/
def findFit (needed scanCount : Nat) : State × Nat × Nat :=
  let s := s.record cfg fun stats =>
    { stats with findFitCalls := wrapAdd stats.findFitCalls 1 }
  let startBin := binIndexFor needed
  let (h, scanCount) := s.scanBins cfg needed startBin binCount
    (s.firstNonemptyBinFrom startBin) scanCount
  let s := s.record cfg fun stats =>
    { stats with scannedNodes := wrapAdd stats.scannedNodes scanCount }
  (s, h, scanCount)

/-- `live_bytes` grows by `bytes` and raises the peak. -/
def addLiveBytes (bytes : Nat) : State :=
  s.record cfg fun stats =>
    let live := wrapAdd stats.liveBytes bytes
    { stats with
      liveBytes := live
      peakLiveBytes :=
        if live > stats.peakLiveBytes then live else stats.peakLiveBytes }

/-- A free run of `bytes` bytes behind an allocated run: the remainder of a
split. -/
def makeRemainder (rem bytes : Nat) : State :=
  let s := s.setHeader rem bytes true false
  let s := s.writeFooter rem
  let s := s.linkFree rem
  s.flagNextRun rem true

/-- Hand out the run at `h` whole, `bytes` bytes long. -/
def takeWhole (h bytes : Nat) (prevFree : Bool) : State :=
  let s := s.setHeader h bytes false prevFree
  s.flagNextRun h false

def allocateFromFreeRun (h needed : Nat) : State × Nat :=
  let oldSize := s.runSize h
  let prevFree := s.prevIsFree h
  let remSize := wrapSub oldSize needed
  let s := s.unlinkFree h
  let s :=
    if remSize ≥ minFreeRunSize + splitRemainderThreshold then
      let s := s.setHeader h needed false prevFree
      let s := s.record cfg fun stats =>
        { stats with splitCount := wrapAdd stats.splitCount 1 }
      s.makeRemainder (h + needed) remSize
    else s.takeWhole h oldSize prevFree
  let s := s.write (ownerWord h) cfg.self
  let s := s.addLiveBytes cfg (wrapSub (s.runSize h) headerBytes)
  (s, payloadFromHeader h)

/-- The first half of coalescing: absorb the next run if it is free. -/
def coalesceNext (current size : Nat) : State × Nat :=
  let next := s.nextRun current
  if next ≠ 0 ∧ s.isFree next then
    let s := s.unlinkFree next
    let size := wrapAdd size (s.runSize next)
    (s.record cfg fun stats =>
      { stats with coalesceNextCount := wrapAdd stats.coalesceNextCount 1 },
      size)
  else (s, size)

/-- The second half: absorb the run into a free previous one. -/
def coalescePrev (current size : Nat) : State × Nat × Nat :=
  if s.prevIsFree current then
    let prev := s.prevRun current
    if prev ≠ 0 ∧ s.isFree prev then
      let s := s.unlinkFree prev
      let size := wrapAdd size (s.runSize prev)
      (s.record cfg fun stats =>
        { stats with coalescePrevCount := wrapAdd stats.coalescePrevCount 1 },
        prev, size)
    else (s, current, size)
  else (s, current, size)

def makeFree (current size : Nat) : State :=
  let s := s.setHeader current size true (s.prevIsFree current)
  let s := s.writeFooter current
  let s := s.flagNextRun current true
  s.linkFree current

def deallocateBytes (p : Nat) : State :=
  if p = 0 then s
  else
    let s := s.record cfg fun stats =>
      { stats with deallocateCalls := wrapAdd stats.deallocateCalls 1 }
    let current := headerFromPayload p
    let currentSize := s.runSize current
    let s := s.record cfg fun stats =>
      { stats with
        liveBytes := wrapSub stats.liveBytes (wrapSub currentSize headerBytes) }
    let (s, currentSize) := s.coalesceNext cfg current currentSize
    let (s, current, currentSize) := s.coalescePrev cfg current currentSize
    s.makeFree current currentSize

def ownerOf (payload : Nat) : Nat :=
  s.mem (payload - 8)

def ownsRun (p : Nat) : Bool :=
  p != 0 && s.chunks.any fun chunk =>
    decide (chunk.first ≤ p) && decide (p < chunk.first + chunk.bytes)

/-- The part of `expand` behind its early exits: grow `current` into the free
run `next` behind it. -/
def expandInto (current next currentRunSize combinedSize needed : Nat) :
    State × Nat :=
  let currentPayload := wrapSub currentRunSize headerBytes
  let prevFree := s.prevIsFree current
  let s := s.unlinkFree next
  let remSize := wrapSub combinedSize needed
  let s :=
    if remSize ≥ minFreeRunSize + splitRemainderThreshold then
      let s := s.setHeader current needed false prevFree
      s.makeRemainder (current + needed) remSize
    else s.takeWhole current combinedSize prevFree
  let s := s.write (ownerWord current) cfg.self
  let expandedPayload := wrapSub (s.runSize current) headerBytes
  let s :=
    if expandedPayload > currentPayload then
      s.addLiveBytes cfg (wrapSub expandedPayload currentPayload)
    else s
  (s, expandedPayload)

/-- `expand`: the state and the payload size it reports. -/
def expand (p minNewBytes : Nat) : State × Nat :=
  if p = 0 then (s, 0)
  else
    let current := headerFromPayload p
    let currentRunSize := s.runSize current
    let currentPayload := wrapSub currentRunSize headerBytes
    if currentPayload ≥ minNewBytes then (s, currentPayload)
    else
      match normalizedRunBytesForPayload minNewBytes with
      | none => (s, currentPayload)
      | some needed =>
          let next := s.nextRun current
          if next = 0 ∨ ¬ s.isFree next then (s, currentPayload)
          else
            match checkedAdd currentRunSize (s.runSize next) with
            | none => (s, currentPayload)
            | some combinedSize =>
                if combinedSize < needed then (s, currentPayload)
                else s.expandInto cfg current next currentRunSize combinedSize
                  needed

/-- `remote_push`, run without interference. -/
def remotePush (p : Nat) : State :=
  let s := s.write p s.remoteHead
  { s with remoteHead := p }

/-- The walk of `_drain_remote` over the stack taken from `head`, for at most
`fuel` entries. -/
def drainWalk : Nat → Nat → State → State
  | 0, _, s => s
  | fuel + 1, head, s =>
      if head = 0 then s
      else
        let next := s.mem head
        drainWalk fuel next (s.deallocateBytes cfg head)

/-- `_drain_remote`: the state and whether anything was reclaimed. -/
def drainRemote : State × Bool :=
  let head := s.remoteHead
  let s := { s with remoteHead := 0 }
  if head = 0 then (s, false)
  else (drainWalk cfg s.nodeBound head s, true)

def ownedChunkGranularity : Nat :=
  if cfg.huge then explicitHugePageBytes else cfg.pageSize

def ownedChunkBytesFor (bytes : Nat) : Except Exn Nat :=
  match checkedRoundToMultipleOf (max bytes minChunkBytes)
      (ownedChunkGranularity cfg) with
  | none => .error .badAlloc
  | some chunkBytes => .ok chunkBytes

/-- `allocate_owned_memory<Huge>`: base and length of the memory obtained. -/
def allocateOwnedMemory (os : Os) (inUse : List ChunkNode)
    (bytes alignment : Nat) : Option (Nat × Nat) :=
  if bytes = 0 ∨ alignment < 8 ∨ ¬ hasSingleBit alignment then none
  else if cfg.huge then
    if alignment > explicitHugePageBytes then none
    else do
      let mappingBytes ← checkedRoundToMultipleOf bytes explicitHugePageBytes
      let base ← os.grant inUse mappingBytes
      return (base, mappingBytes)
  else do
    let base ← os.grant inUse bytes
    return (base, bytes)

def initializeFreeRun (chunk : ChunkNode) : State :=
  let h := chunk.first
  let runBytes := wrapSub chunk.bytes epilogueSize
  let s := s.setHeader h runBytes true false
  let s := s.writeFooter h
  let s := s.linkFree h
  let epilogue := chunk.first + runBytes
  let s := s.setHeader epilogue 0 false true
  s.write (ownerWord epilogue) 0

def addOwnedChunk (os : Os) (bytes : Nat) : State × Except Exn Nat :=
  match ownedChunkBytesFor cfg bytes with
  | .error exn => (s, .error exn)
  | .ok chunkBytes =>
      match allocateOwnedMemory cfg os s.chunks chunkBytes runAlignment with
      | none => (s, .error .refused)
      | some (base, arenaBytes) =>
          let chunk : ChunkNode := ⟨base, arenaBytes, base, arenaBytes⟩
          let s := { s with chunks := chunk :: s.chunks }
          (s.initializeFreeRun chunk, .ok chunkBytes)

def growFor (os : Os) (needed : Nat) : State × Except Exn Unit :=
  let s := s.record cfg fun stats =>
    { stats with growCalls := wrapAdd stats.growCalls 1 }
  match checkedAdd needed minChunkBytes with
  | none => (s, .error .badAlloc)
  | some neededWithOverhead =>
      match s.addOwnedChunk cfg os (max s.nextGrowth neededWithOverhead) with
      | (s, .error exn) => (s, .error exn)
      | (s, .ok chunkBytes) =>
          let doubledGrowth := (checkedMul chunkBytes 2).getD (2 ^ 64 - 1)
          ({ s with nextGrowth := max doubledGrowth chunkBytes }, .ok ())

/-- The search of `allocate_bytes` with its retry after a drain. -/
def findOrDrain (needed : Nat) : State × Nat × Nat :=
  let (s, h, scanCount) := s.findFit cfg needed 0
  if h = 0 then
    match s.drainRemote cfg with
    | (s, true) => s.findFit cfg needed scanCount
    | (s, false) => (s, h, scanCount)
  else (s, h, scanCount)

def findOrDefer (os : Os) (needed : Nat) (found : State × Nat × Nat) :
    State × Except Exn (Nat × Nat) :=
  let (s, h, scanCount) := found
  if h = 0 ∧ s.deferredBytes ≠ 0 then
    match s.addOwnedChunk cfg os s.deferredBytes with
    | (s, .error exn) => (s, .error exn)
    | (s, .ok chunkBytes) =>
        let s := { s with nextGrowth := chunkBytes, deferredBytes := 0 }
        let (s, h, scanCount) := s.findFit cfg needed scanCount
        (s, .ok (h, scanCount))
  else (s, .ok (h, scanCount))

def findOrGrow (os : Os) (needed : Nat) (h scanCount : Nat) :
    State × Except Exn Nat :=
  if h = 0 ∧ cfg.canGrow then
    match s.growFor cfg os needed with
    | (s, .error exn) => (s, .error exn)
    | (s, .ok ()) =>
        let (s, h, _) := s.findFit cfg needed scanCount
        (s, .ok h)
  else (s, .ok h)

/-- The `fail_allocate` lambda. -/
def failAllocate : State × Except Exn Nat :=
  (s.record cfg fun stats =>
    { stats with allocateFail := wrapAdd stats.allocateFail 1 }, .ok 0)

/-- The end of `allocate_bytes`, with the run found or null. -/
def finishAllocate (h needed : Nat) : State × Except Exn Nat :=
  if h = 0 then s.failAllocate cfg
  else
    let (s, out) := s.allocateFromFreeRun cfg h needed
    let granted := wrapSub (s.runSize (headerFromPayload out)) headerBytes
    (s.record cfg fun stats =>
      { stats with
        allocateSuccess := wrapAdd stats.allocateSuccess 1
        grantedBytes := wrapAdd stats.grantedBytes granted }, .ok out)

/-- `allocate_bytes` from the point where the remote stack has been dealt
with. -/
def resumeAllocate (os : Os) (needed : Nat) (found : State × Nat × Nat) :
    State × Except Exn Nat :=
  match findOrDefer cfg os needed found with
  | (s, .error exn) => (s, .error exn)
  | (s, .ok (h, scanCount)) =>
      match s.findOrGrow cfg os needed h scanCount with
      | (s, .error exn) => (s, .error exn)
      | (s, .ok h) => s.finishAllocate cfg h needed

/-- `allocate_bytes`: a payload pointer, null, or an exception. -/
def allocateBytes (os : Os) (bytes alignment : Nat) : State × Except Exn Nat :=
  let bytes := if bytes = 0 then 1 else bytes
  if alignment > runAlignment then (s, .ok 0)
  else
    let s := s.record cfg fun stats =>
      { stats with
        allocateCalls := wrapAdd stats.allocateCalls 1
        requestedBytes := wrapAdd stats.requestedBytes bytes }
    match normalizedRunBytesForPayload bytes with
    | none => s.failAllocate cfg
    | some needed => resumeAllocate cfg os needed (s.findOrDrain cfg needed)

/-- The members before any chunk is added, on memory with arbitrary contents. -/
def blank (mem : Nat → Nat) (nextGrowth deferredBytes : Nat) : State where
  bins := fun _ => 0
  binNonemptyMask := fun _ => 0
  chunks := []
  nextGrowth := nextGrowth
  deferredBytes := deferredBytes
  stats := {}
  remoteHead := 0
  mem := mem

/-- `allocator(size_t initial_bytes)`. -/
def construct (os : Os) (mem : Nat → Nat) (initialBytes : Nat) :
    Except Exn State :=
  match (blank mem (max initialBytes 65536) 0).addOwnedChunk cfg os
      initialBytes with
  | (_, .error exn) => .error exn
  | (s, .ok chunkBytes) => .ok { s with nextGrowth := chunkBytes }

/-- `allocator(size_t initial_bytes, lazy_init_t)`. -/
def constructLazy (mem : Nat → Nat) (initialBytes : Nat) : State :=
  blank mem (max initialBytes 65536) (max initialBytes 1)

/-- `_add_external_chunk` on the backing `[data, data + size)`. -/
def addExternalChunk (data size : Nat) : Except Exn State :=
  if size = 0 then
    .error (.invalidArgument "runner::allocator backing must not be empty")
  else
    -- `std::align(run_alignment, min_chunk_bytes, aligned, space)`
    let aligned := (data + (runAlignment - 1)) / runAlignment * runAlignment
    if size < minChunkBytes + (aligned - data) then
      .error
        (.invalidArgument "runner::allocator backing alignment is insufficient")
    else
      let space := size - (aligned - data)
      let chunkBytes := space - space % runAlignment
      if chunkBytes < minChunkBytes then
        .error (.invalidArgument "runner::allocator backing too small")
      else
        let chunk : ChunkNode := ⟨aligned, chunkBytes, 0, 0⟩
        let s := { s with chunks := chunk :: s.chunks }
        .ok (s.initializeFreeRun chunk)

/-- `allocator(std::span<std::byte> backing)`. -/
def constructExternal (mem : Nat → Nat) (data size : Nat) : Except Exn State :=
  (blank mem 0 0).addExternalChunk data size

end State

end Runner

end Allocazam
